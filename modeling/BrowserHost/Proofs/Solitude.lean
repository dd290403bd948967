import BrowserHost.Proofs.Navigation
import BrowserHost.Proofs.Visibility

/-!
# BrowserHost.Proofs.Solitude

Runs in which a session begins only when the engine of every earlier one has been
dropped.  Then the loop of the latest session is the only one with an engine to
do anything, so every task that it runs is one of its own session, and its view
stays as the engine was made with until it runs its first lifecycle task: that
task stands in the queue before any about the visibility.

* `Strand.Fits`: how each loop fits in with the latest session;
* `Step.lone`: every step keeps it so;
* `Steps.solitary`: so it is at every moment of such a run;
* `view_of_drained`: what the engine of a session shows that has nothing to do.
-/

namespace BrowserHost.Engine

/-- The engine of the loop was made, and has not been dropped. -/
def Loop.IsUp (l : Loop) : Prop :=
  l.phase.isAlive ∧ l.phase ≠ .building

end BrowserHost.Engine

namespace BrowserHost.Instance

open Engine Outline

/-! ## one session after the other -/

/-- The engine whose session an entry says began. -/
def Entry.began? : Entry → Option Nat
  | .began e _ => some e
  | _ => none

/-- Every session that began has had its engine dropped. -/
def AllDropped (j : List Entry) : Prop :=
  ∀ e t, .began e t ∈ j → .dropped e ∈ j

theorem mem_began?_iff {e : Nat} {j : List Entry} :
    e ∈ j.filterMap Entry.began? ↔ ∃ t, .began e t ∈ j := by
  rw [List.mem_filterMap]
  refine ⟨?_, fun ⟨t, h⟩ => ⟨_, h, rfl⟩⟩
  rintro ⟨d, hd, hde⟩
  cases d with
  | began d t => exact ⟨t, Option.some.inj hde ▸ hd⟩
  | _ => simp [Entry.began?] at hde

instance : DecidablePred AllDropped := fun j =>
  decidable_of_iff (∀ e ∈ j.filterMap Entry.began?, e ∈ j.filterMap Entry.dropped?) <| by
    simp only [mem_began?_iff, mem_dropped?_iff]
    exact ⟨fun h e t ht => h e ⟨t, ht⟩, fun h e ⟨t, ht⟩ => h e t ht⟩

/-- Sessions begin when no other is left, and views come from the states and the
hidden flag alone. -/
structure Secluded (j : List Entry) : Prop where
  starts : Whenever Entry.isBegin AllDropped j
  views : ∀ e ∈ j, e.isViewWork = false

theorem Secluded.of_suffix {j k : List Entry} (h : Secluded j) (hk : k <:+ j) : Secluded k :=
  ⟨h.starts.of_suffix hk, fun e he => h.views e (hk.subset he)⟩

/-! ## the first cue -/

/-- Whether a message is about the state or the visibility. -/
def isCue : Message → Bool
  | .run t => !isPlainTask t
  | .stop => false

/-- Of what the queue holds about the state and the visibility, a state to apply
comes first. -/
def Strand.Prompted (g : Strand) : Prop :=
  ∃ s, g.queue.find? isCue = some (.run (.lifecycle s))

section

variable {g : Strand}

theorem Strand.Prompted.append (h : g.Prompted) (ms : List Message) :
    ({ g with queue := g.queue ++ ms } : Strand).Prompted := by
  obtain ⟨s, hs⟩ := h
  exact ⟨s, by rw [List.find?_append, hs, Option.some_or]⟩

theorem Strand.Prompted.close (h : g.Prompted) : g.close.Prompted := by
  unfold Strand.close
  split
  · exact h
  · split
    · exact h.append [.stop]
    · exact h

/-- A plain task in front does not matter. -/
theorem Strand.Prompted.tail (h : g.Prompted) {t : Task} {rest : List Message}
    (hq : g.queue = .run t :: rest) (ht : isPlainTask t) (v : View) :
    ({ g with queue := rest, view := v } : Strand).Prompted := by
  obtain ⟨s, hs⟩ := h
  rw [hq, List.find?_cons_of_neg (by simp [isCue, ht])] at hs
  exact ⟨s, hs⟩

/-- A visibility task in front would come too early. -/
theorem Strand.Prompted.not_visibility (h : g.Prompted) {b : Bool} {rest : List Message} :
    g.queue ≠ .run (.visibility b) :: rest := by
  intro hq
  obtain ⟨s, hs⟩ := h
  rw [hq, List.find?_cons_of_pos rfl] at hs
  cases hs

/-- The queue of a loop whose session begins. -/
theorem Strand.prompted_of_uncued {g : Strand} (ht : g.targets = []) (hf : g.flags = [])
    (url : String) (s : State) :
    ({ g with
      building := false
      queue := g.queue ++ [.run (.work (.load url)), .run (.lifecycle s)] } : Strand).Prompted := by
  have hnone : g.queue.find? isCue = none := by
    refine List.find?_eq_none.2 fun m hm hcue => ?_
    have htarget := List.filterMap_eq_nil_iff.1 ht m hm
    have hflag := List.filterMap_eq_nil_iff.1 hf m hm
    match m with
    | .run (.lifecycle s) => cases htarget
    | .run (.visibility h) => cases hflag
    | .run (.work _) | .run (.report _) | .run .block | .stop => cases hcue
  exact ⟨s, by rw [List.find?_append, hnone]; rfl⟩

end

/-! ## loops beside the latest session -/

/-- How a loop fits in: one that has ended is empty, and one that has an engine is
that of the latest session; the engine has the view that it was made with until a
lifecycle task of the session has run, which is still to come then. -/
structure Strand.Fits (j : List Entry) (last : Prop) (g : Strand) : Prop where
  ended : g.alive = false → g.queue = []
  kept : g.alive → .dropped g.engine ∉ j
  alone : g.alive → g.building = false → last
  dim : g.building ∨ (last ∧ isDriven j = false) → g.view = {}
  prompted : g.alive → last → isDriven j = false → g.Prompted

namespace Strand.Fits

variable {j j' : List Entry} {last : Prop} {g : Strand}

/-- The journal goes on, but the engine is not dropped and no session begins. -/
theorem later (h : g.Fits j last) (hd : .dropped g.engine ∈ j' → .dropped g.engine ∈ j)
    (hi : isDriven j' = false → isDriven j = false) : g.Fits j' last where
  ended := h.ended
  kept ha hmem := h.kept ha (hd hmem)
  alone := h.alone
  dim hdim := h.dim (hdim.imp_right fun ⟨hlast, hnot⟩ => ⟨hlast, hi hnot⟩)
  prompted ha hlast hnot := h.prompted ha hlast (hi hnot)

theorem push (h : g.Fits j last) (ha : g.alive) (t : Task) : (g.push t).Fits j last where
  ended hdead := absurd ha (Bool.eq_false_iff.1 hdead)
  kept := h.kept
  alone := h.alone
  dim := h.dim
  prompted ha hlast hnot := (h.prompted ha hlast hnot).append [.run t]

theorem close (h : g.Fits j last) : g.close.Fits j last where
  ended hdead := by
    rw [Strand.alive_close] at hdead
    unfold Strand.close
    split
    · exact h.ended hdead
    · simp [hdead, h.ended hdead]
  kept ha := by
    rw [Strand.alive_close] at ha
    rw [Strand.engine_close]
    exact h.kept ha
  alone ha hb := h.alone (Strand.alive_close g ▸ ha) (Strand.building_close g ▸ hb)
  dim hdim := by
    rw [Strand.building_close] at hdim
    rw [Strand.view_close]
    exact h.dim hdim
  prompted ha hlast hnot := (h.prompted (Strand.alive_close g ▸ ha) hlast hnot).close

theorem finish (h : g.Fits j last) (hi : isDriven j' = false → isDriven j = false) :
    g.finish.Fits j' last where
  ended _ := rfl
  kept ha := by cases ha
  alone ha := by cases ha
  dim hdim := by
    obtain ⟨hlast, hnot⟩ := hdim.resolve_left (by simp [Strand.finish])
    exact h.dim (.inr ⟨hlast, hi hnot⟩)
  prompted ha := by cases ha

/-- A loop with something in its queue has not ended. -/
theorem alive (h : g.Fits j last) {m : Message} {rest : List Message} (hq : g.queue = m :: rest) :
    g.alive := by
  by_contra hdead
  have hempty := h.ended (Bool.eq_false_iff.2 hdead)
  rw [hq] at hempty
  cases hempty

theorem take (h : g.Fits j last) {t : Task} {rest : List Message} (hq : g.queue = .run t :: rest)
    (ht : isPlainTask t) (hd : .dropped g.engine ∈ j' → .dropped g.engine ∈ j)
    (hi : isDriven j' = false → isDriven j = false) :
    ({ g with queue := rest, view := g.view } : Strand).Fits j' last where
  ended hdead := absurd (h.alive hq) (Bool.eq_false_iff.1 hdead)
  kept ha hmem := h.kept ha (hd hmem)
  alone := h.alone
  dim hdim := h.dim (hdim.imp_right fun ⟨hlast, hnot⟩ => ⟨hlast, hi hnot⟩)
  prompted ha hlast hnot := (h.prompted ha hlast (hi hnot)).tail hq ht g.view

/-- A loop that takes a task about the state or the visibility shows it, once the
session has run a lifecycle task. -/
theorem cue (h : g.Fits j last) {t : Task} {rest : List Message} (hq : g.queue = .run t :: rest)
    (hb : g.building = false) (v : View) (hd : .dropped g.engine ∈ j' → .dropped g.engine ∈ j)
    (hdriven : last → isDriven j') :
    ({ g with queue := rest, view := v } : Strand).Fits j' last where
  ended hdead := absurd (h.alive hq) (Bool.eq_false_iff.1 hdead)
  kept ha hmem := h.kept ha (hd hmem)
  alone := h.alone
  dim hdim := by
    obtain ⟨hlast, hnot⟩ := hdim.resolve_left (by simp [hb])
    simp [hdriven hlast] at hnot
  prompted _ hlast hnot := by simp [hdriven hlast] at hnot

end Strand.Fits

/-- Every loop fits in with the latest session, and every lifecycle task was run by
the session that was the latest then. -/
structure Lone (o : Outline) : Prop where
  fits : ∀ i g, o.loop? i = some g → g.Fits o.journal (o.sessions.getLast? = some i)
  bounded : ∀ e, .dropped e ∈ o.journal → e ≤ o.attempts
  loyal : Loyal o.journal

/-- Whether an entry neither drops an engine nor moves a state. -/
def Entry.isTame : Entry → Bool
  | .began .. | .dropped _ | .ran _ (.lifecycle _) => false
  | _ => true

section

variable {p : Call → Bool} {o o' : Outline} {i : Nat} {g : Strand}

theorem not_dropped_cons {e : Entry} {j : List Entry} (he : e.isTame) (d : Nat)
    (h : .dropped d ∈ e :: j) : .dropped d ∈ j := by
  rcases List.mem_cons.1 h with rfl | h
  · simp [Entry.isTame] at he
  · exact h

theorem isDriven_cons {e : Entry} (he : e.isTame) (j : List Entry) :
    isDriven (e :: j) = isDriven j := by
  match e with
  | .ran _ (.lifecycle _) | .began .. => simp [Entry.isTame] at he
  | .ran _ (.work _) | .ran _ (.visibility _) | .ran _ (.report _) | .ran _ .block
  | .requested .. | .ended _ | .navigated _ | .flipped _ | .frame _ | .queued .. | .created ..
  | .submitted .. | .loaded .. | .viewed .. | .dropped _ | .telling .. | .heard ..
  | .answered .. | .told .. => rfl

theorem loyal_cons {e : Entry} (he : e.isTame) {j : List Entry} (h : Loyal j) : Loyal (e :: j) := by
  match e with
  | .ran _ (.lifecycle _) => simp [Entry.isTame] at he
  | .ran _ (.work _) | .ran _ (.visibility _) | .ran _ (.report _) | .ran _ .block
  | .requested .. | .began .. | .ended _ | .navigated _ | .flipped _ | .frame _ | .queued ..
  | .created .. | .submitted .. | .loaded .. | .viewed .. | .dropped _ | .telling .. | .heard ..
  | .answered .. | .told .. => exact h

theorem Lone.fresh (s : BrowserSettings) : Lone (ofSettings s).outline := by
  have hnone (i : Nat) : (ofSettings s).outline.loop? i = none := rfl
  exact ⟨fun i g hg => by simp [hnone] at hg, nofun, trivial⟩

/-- One loop becomes another, and the journal goes on. -/
theorem Lone.replace (h : Lone o) (hg : o.loop? i = some g) {g' : Strand}
    (hs : o'.sessions = o.sessions) (ha : o'.attempts = o.attempts)
    (hl : o'.loops = o.loops.set i g') {e : Entry} (hj : o'.journal = e :: o.journal)
    (he : e.isTame) (hfits : g'.Fits o'.journal (o.sessions.getLast? = some i)) : Lone o' := by
  refine ⟨fun k m hm => ?_, fun d hd => ?_, ?_⟩
  · have hset : (o.setLoop i g').loop? k = some m := by
      rw [← hm]
      unfold Outline.loop? Outline.setLoop
      rw [hl]
    rw [hs]
    rcases loop?_setLoop_cases hg hset with ⟨rfl, rfl⟩ | ⟨-, hm⟩
    · exact hfits
    · rw [hj]
      exact (h.fits k m hm).later (not_dropped_cons he _) fun hnot => isDriven_cons he _ ▸ hnot
  · rw [hj] at hd
    rw [ha]
    exact h.bounded d (not_dropped_cons he d hd)
  · rw [hj]
    exact loyal_cons he h.loyal

/-- No loop changes. -/
theorem Lone.frame (h : Lone o) (hs : o'.sessions = o.sessions) (hl : o'.loops = o.loops)
    (ha : o.attempts ≤ o'.attempts) {e : Entry} (hj : o'.journal = e :: o.journal)
    (he : e.isTame) : Lone o' := by
  refine ⟨fun k m hm => ?_, fun d hd => ?_, ?_⟩
  · have hm' : o.loop? k = some m := by rwa [Outline.loop?, hl] at hm
    rw [hs, hj]
    exact (h.fits k m hm').later (not_dropped_cons he _) fun hnot => isDriven_cons he _ ▸ hnot
  · rw [hj] at hd
    exact (h.bounded d (not_dropped_cons he d hd)).trans ha
  · rw [hj]
    exact loyal_cons he h.loyal

theorem Lone.note (h : Lone o) {e : Entry} (he : e.isTame) : Lone (o.note e) :=
  h.frame rfl rfl (Nat.le_refl _) rfl he

theorem Lone.submitTo (h : Lone o) (i : Nat) (t : Task) : Lone (o.submitTo i t) := by
  rcases submitTo_cases o i t with ⟨heq, -⟩ | ⟨g, hg, haccepts, heq⟩
  · rw [heq]
    exact h
  · have ha : g.alive := by
      unfold Strand.accepts at haccepts
      exact (Bool.and_eq_true_iff.1 haccepts).2
    have hqueued : (Entry.queued g.engine t).isTame := rfl
    rw [heq]
    refine h.replace hg rfl rfl rfl rfl hqueued ?_
    refine ((h.fits i g hg).push ha t).later ?_ fun hnot => ?_
    · exact not_dropped_cons hqueued _
    · exact isDriven_cons hqueued _ ▸ hnot

theorem Lone.submit (h : Lone o) (t : Task) : Lone (o.submit t) := by
  unfold Outline.submit
  split
  · exact h
  · exact h.submitTo _ t

theorem Lone.openLoop (h : Lone o) (ho : Placed o) :
    Lone { o with
      attempts := o.attempts + 1
      loops := o.loops ++ [{ engine := o.attempts + 1 }] } := by
  refine ⟨fun k m hm => ?_, fun d hd => (h.bounded d hd).trans (Nat.le_succ _), h.loyal⟩
  rcases loop?_append_cases hm with ⟨rfl, rfl⟩ | ⟨-, hm⟩
  · -- the engine is a new one, and the loop is that of no session
    refine ⟨nofun, fun _ hdropped => ?_, nofun, fun _ => rfl, fun _ hlast => ?_⟩
    · exact Nat.not_succ_le_self _ (h.bounded _ hdropped)
    · obtain ⟨k, hk⟩ := ho.present _ (List.mem_of_getLast? hlast)
      exact absurd (List.getElem?_eq_some_iff.1 hk).1 (Nat.lt_irrefl _)
  · exact h.fits k m hm

/-- A session begins when no other is left. -/
theorem Lone.begin (h : Lone o) (ho : Orderly o) (hg : o.loop? i = some g) (hb : g.building)
    (ha : g.alive) (url : String) (hnone : AllDropped o.journal) : Lone (o.begin i g url) := by
  have hfit := h.fits i g hg
  rw [begin_eq hg (ho.building i g hg hb).1 ha url]
  refine ⟨fun k m hm => ?_, fun d hd => h.bounded d (by simpa using hd), h.loyal⟩
  have hlast : (o.sessions ++ [i]).getLast? = some i := List.getLast?_concat
  simp only [hlast, Option.some.injEq]
  rcases loop?_setLoop_cases hg hm with ⟨rfl, rfl⟩ | ⟨hik, hm⟩
  · refine ⟨fun hdead => absurd ha (Bool.eq_false_iff.1 hdead), fun _ hd => ?_, fun _ _ => rfl,
      fun _ => hfit.dim (.inl hb), fun _ _ _ => ?_⟩
    · exact hfit.kept ha (by simpa using hd)
    · exact Strand.prompted_of_uncued (ho.targets_of_building hg hb) (ho.flags_of_building hg hb)
        url _
  · have hfit' := h.fits k m hm
    refine ⟨hfit'.ended, fun ha' hd => hfit'.kept ha' (by simpa using hd), fun ha' hb' => ?_,
      fun hdim => hfit'.dim (.inl (hdim.resolve_right fun hk => hik hk.1)),
      fun _ hk => absurd hk hik⟩
    -- the session of another loop began, so its engine was dropped
    obtain ⟨t, hbegan⟩ := began_of_latest (ho.latest k m (hfit'.alone ha' hb') hm)
    exact absurd (hnone _ t hbegan) (hfit'.kept ha')

theorem Lone.finish (h : Lone o) (ho : Orderly o) (hg : o.loop? i = some g) :
    Lone ((o.setLoop i g.finish).note (.dropped g.engine)) := by
  refine ⟨fun k m hm => ?_, fun d hd => ?_, h.loyal⟩
  · rcases loop?_setLoop_cases hg hm with ⟨rfl, rfl⟩ | ⟨hik, hm⟩
    · exact (h.fits i g hg).finish id
    · refine (h.fits k m hm).later (fun hd => ?_) id
      refine (List.mem_cons.1 hd).resolve_left fun heq => ?_
      exact hik (ho.distinct k i m g hm hg (Entry.dropped.inj heq)).symm
  · rcases List.mem_cons.1 hd with heq | hd
    · obtain rfl := Entry.dropped.inj heq
      exact ho.bounded i g hg
    · exact h.bounded d hd

theorem Lone.lifecycle {k : Nat} {s : State} {rest : List Message} (h : Lone o) (ho : Orderly o)
    (hg : o.loop? i = some g) (hb : g.building = false)
    (hq : g.queue = .run (.lifecycle s) :: rest) (v : View) :
    Lone (((o.take i g (.lifecycle s) rest v).note (.viewed g.engine v)).settleOn k s) := by
  have hfit := h.fits i g hg
  have hlast := hfit.alone (hfit.alive hq) hb
  have hlatest := ho.latest i g hlast hg
  rw [lifecycle_eq]
  obtain ⟨-, -, -, -, hdriven, hloyal⟩ := lifecycle_readings o k g.engine s v rfl
  have hdropped (d : Nat) (hd : .dropped d ∈ if o.machine.applied = s then
      .viewed g.engine v :: .ran g.engine (.lifecycle s) :: o.journal
      else .telling k (.stateChanged s) :: .viewed g.engine v :: .ran g.engine (.lifecycle s) ::
        o.journal) : .dropped d ∈ o.journal := by
    split at hd <;> simpa using hd
  refine ⟨fun j m hm => ?_, fun d hd => h.bounded d (hdropped d hd),
    hloyal.2 ⟨.inl hlatest, h.loyal⟩⟩
  rcases loop?_setLoop_cases hg hm with ⟨rfl, rfl⟩ | ⟨-, hm⟩
  · refine hfit.cue hq hb v (hdropped _) fun _ => ?_
    rw [hdriven, hlatest]
    simp
  · refine (h.fits j m hm).later (hdropped _) fun hnot => ?_
    rw [hdriven, Bool.or_eq_false_iff] at hnot
    exact hnot.2

/-- A visibility task can only be in front once the session has run a lifecycle
task. -/
theorem Lone.visibility {b : Bool} {rest : List Message} (h : Lone o) (hg : o.loop? i = some g)
    (hb : g.building = false) (hq : g.queue = .run (.visibility b) :: rest) (v : View) :
    Lone (o.take i g (.visibility b) rest v) := by
  have hfit := h.fits i g hg
  have hran : (Entry.ran g.engine (.visibility b)).isTame := rfl
  refine h.replace hg rfl rfl rfl rfl hran
    (hfit.cue hq hb v (not_dropped_cons hran _) fun hlast => ?_)
  by_contra hnot
  exact (hfit.prompted (hfit.alive hq) hlast (Bool.eq_false_iff.2 hnot)).not_visibility hq

theorem Lone.take {t : Task} {rest : List Message} (h : Lone o) (hg : o.loop? i = some g)
    (hq : g.queue = .run t :: rest) (ht : isPlainTask t) : Lone (o.take i g t rest g.view) := by
  have hran : (Entry.ran g.engine t).isTame := by
    match t with
    | .work _ | .report _ | .block => rfl
    | .lifecycle _ | .visibility _ => simp [isPlainTask] at ht
  refine h.replace hg rfl rfl rfl rfl hran ((h.fits i g hg).take hq ht ?_ fun hnot => ?_)
  · exact not_dropped_cons hran _
  · exact isDriven_cons hran _ ▸ hnot

theorem Shift.lone (h : Shift p o o') (ho : Orderly o) (hsec : Secluded o'.journal) (hl : Lone o) :
    Lone o' := by
  cases h with
  | notify _ => exact hl.note rfl
  | @request c t m hm =>
    have hgrant : Lone (Outline.note { o with machine := m } (.requested c t.next)) :=
      hl.frame rfl rfl (Nat.le_refl _) rfl (e := .requested c t.next) rfl
    unfold grant
    split
    · exact hgrant.submit _
    · exact hgrant
  | @ready i g url hg hb ha =>
    have hstarts := hsec.starts
    rw [begin_eq hg (ho.building i g hg hb).1 ha url] at hstarts
    exact hl.begin ho hg hb ha url (hstarts.2.2.1 rfl)
  | @giveUp i e hi =>
    obtain ⟨g, hg, -, heq⟩ := ho.giveUp_eq hi e
    have hended : (Entry.ended e).isTame := rfl
    rw [heq]
    exact hl.replace hg rfl rfl rfl rfl hended
      ((hl.fits i g hg).close.later (not_dropped_cons hended _) fun hnot => hnot)
  | finish hg hb => exact hl.finish ho hg
  | lifecycle hg hb hq => exact hl.lifecycle ho hg hb hq _

theorem Step.lone (h : Step p o o') (ho : Orderly o) (hr : Recorded o)
    (hsec : Secluded o'.journal) (hl : Lone o) : Lone o' := by
  cases h with
  | shift h => exact h.lone ho hsec hl
  | glance h =>
    cases h with
    | @hide i v hi =>
      have hflip : Lone (Outline.note { o with hidden := v } (.flipped v)) :=
        hl.frame rfl rfl (Nat.le_refl _) rfl (e := .flipped v) rfl
      exact hflip.submitTo _ _
    | @view i g v rest hg hb hq =>
      have hmem := hr i g (.work (.view v)) hg (by rw [hq]; exact List.mem_cons_self)
      have hnot := hsec.views _ (List.mem_cons_of_mem _ hmem)
      simp [Entry.isViewWork] at hnot
    | visibility hg hb hq => exact hl.visibility hg hb hq _
  | @quiet e he =>
    have htame : e.isTame := by
      cases e with
      | began _ _ | dropped _ | ran _ _ => simp [Entry.isLoud] at he
      | _ => rfl
    exact hl.note htame
  | attempt => exact ⟨hl.fits, fun d hd => (hl.bounded d hd).trans (Nat.le_succ _), hl.loyal⟩
  | openLoop => exact hl.openLoop ho.toPlaced
  | push ht => exact hl.submitTo _ _
  | @fail i g hg hb =>
    refine ⟨fun k m hm => ?_, hl.bounded, hl.loyal⟩
    rcases loop?_setLoop_cases hg hm with ⟨rfl, rfl⟩ | ⟨-, hm⟩
    · exact (hl.fits i g hg).finish id
    · exact hl.fits k m hm
  | take hg hb hq ht => exact hl.take hg hq ht

/-! ## every moment -/

/-- What holds of the outline at every moment of a secluded run. -/
structure Solitary (o : Outline) : Prop where
  orderly : Orderly o
  recorded : Recorded o
  lone : Lone o
  chained : Chained o
  seen : Seen o

theorem solitary_ofSettings (s : BrowserSettings) : Solitary (ofSettings s).outline := by
  have hnone (i : Nat) : (ofSettings s).outline.loop? i = none := rfl
  refine ⟨orderly_ofSettings s, fun i g t hg => by simp [hnone] at hg, .fresh s, ⟨?_, ?_, rfl⟩,
    ⟨?_, ?_, ?_, ?_⟩⟩ <;>
    simp [outline, ofSettings]

theorem Step.solitary (h : Step p o o') (hsec : Secluded o'.journal) (hx : Solitary o) :
    Solitary o' := by
  have hlone := h.lone hx.orderly hx.recorded hsec hx.lone
  have hrest : Chained o' ∧ Seen o' := by
    rcases h.kinds hx.orderly.toPlaced with h | h | h
    · exact ⟨h.weaken.chained hx.orderly hx.chained, h.seen hx.orderly hx.seen⟩
    · exact ⟨h.calm.chained hx.orderly hx.chained,
        h.seen hx.orderly hx.recorded hsec.views hx.seen⟩
    · exact ⟨h.chained hx.orderly hlone.loyal.steady fun _ => hx.chained,
        h.seen hx.orderly hlone.loyal hx.chained hx.seen⟩
  exact ⟨h.orderly hx.orderly, h.recorded hx.orderly.toPlaced hx.recorded, hlone, hrest.1,
    hrest.2⟩

theorem Steps.solitary (h : Steps p o o') (hsec : Secluded o'.journal) (hx : Solitary o) :
    Solitary o' := by
  have hall : Orderly o' ∧ (Secluded o'.journal → Solitary o') := by
    clear hsec
    induction h with
    | refl => exact ⟨hx.orderly, fun _ => hx⟩
    | tail _ hstep ih =>
      refine ⟨hstep.orderly ih.1, fun hsec => ?_⟩
      exact hstep.solitary hsec (ih.2 (hsec.of_suffix (hstep.journal ih.1)))
  exact hall.2 hsec

end

/-! ## what the engines show -/

section

variable {x : Instance} {i : Nat} {l : Loop}

theorem loop?_outline_of_loop? (hl : x.loop? i = some l) :
    x.outline.loop? i = some (strand l) := by
  rw [loop?_outline, hl, Option.map_some]

theorem strand_of_isUp (h : l.IsUp) : (strand l).alive ∧ (strand l).building = false :=
  ⟨h.1, by simpa [strand] using h.2⟩

/-- Only the loop of the latest session has an engine. -/
theorem Solitary.latest_of_isUp (hx : Solitary x.outline) (hl : x.loop? i = some l)
    (hup : l.IsUp) : x.sessions.getLast? = some i := by
  have hfits := hx.lone.fits i _ (loop?_outline_of_loop? hl)
  exact hfits.alone (strand_of_isUp hup).1 (strand_of_isUp hup).2

/-- An engine shows nothing before the first lifecycle task of its session. -/
theorem Solitary.view_of_undriven (hx : Solitary x.outline) (hl : x.loop? i = some l)
    (hup : l.IsUp) (hnot : isDriven x.journal = false) : l.view = {} := by
  have hfits := hx.lone.fits i _ (loop?_outline_of_loop? hl)
  exact hfits.dim (.inr ⟨hx.latest_of_isUp hl hup, hnot⟩)

/-- The loop of the session has nothing left to run. -/
structure Drained (x : Instance) (i : Nat) (l : Loop) : Prop where
  dispatcher : x.dispatcher = some i
  loop : x.loop? i = some l
  alive : l.phase.isAlive
  queue : l.queue = []

/-- The engine of a drained session shows the requested state and the hidden
flag. -/
theorem Solitary.view_of_drained (hx : Solitary x.outline) (hd : x.Drained i l) :
    l.view = View.of x.machine.requested x.hidden := by
  have hg := loop?_outline_of_loop? hd.loop
  have hqueue : (strand l).queue = [] := hd.queue
  have htargets : (strand l).targets = [] := by rw [Strand.targets, hqueue, List.filterMap_nil]
  have hflags : (strand l).flags = [] := by rw [Strand.flags, hqueue, List.filterMap_nil]
  have hlast := hx.orderly.current i hd.dispatcher
  have hdriven : isDriven x.journal := by
    by_contra hnot
    exact hx.seen.undriven i _ hd.dispatcher hg hd.alive (Bool.eq_false_iff.2 hnot) htargets
  have happlied := hx.chained.last i _ hd.dispatcher hg hd.alive
  rw [htargets] at happlied
  have hstate : x.machine.applied = x.machine.requested := Option.some.inj happlied
  have hshown : l.view.inWindow = (x.machine.applied == .resumed) :=
    hx.seen.shown i _ hlast hg hdriven
  have hvisible : l.view.visible = !x.hidden :=
    hx.seen.settled i _ hd.dispatcher hg hd.alive hflags hdriven
  rw [View.of, ← hvisible, ← hstate, ← hshown]

end

end BrowserHost.Instance
