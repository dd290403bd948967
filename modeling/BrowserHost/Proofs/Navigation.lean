import BrowserHost.Proofs.Address
import BrowserHost.Proofs.Hiding

/-!
# BrowserHost.Proofs.Navigation

Where an instance gets to whose callers navigate and do nothing else about URLs,
over all of its sessions.  Its engines report every load twice, and observers who
hear of it may navigate again, so the tracked URL goes back and forth until the
queue is empty.  Then it is the one that was asked for last.

* `Begun`: a session begins once, with an engine that was made;
* `Seated`: a loop with a load in hand does nothing else meanwhile;
* `Voyage`, `Errand.voyage`: every errand keeps to the course;
* `last_navigation_wins`: each session loads what it was asked for, in order and
  once each, and ends where it was asked to go last.
-/

namespace BrowserHost.Instance

open Engine Hub

/-! ## at certain times -/

/-- Whenever an entry of that sort was made, `P` held of those before. -/
def Whenever (event : Entry → Bool) (P : List Entry → Prop) : List Entry → Prop
  | [] => True
  | e :: j => (event e → P j) ∧ Whenever event P j

theorem Whenever.of_suffix {event : Entry → Bool} {P : List Entry → Prop} {j k : List Entry}
    (h : Whenever event P j) (hk : k <:+ j) : Whenever event P k := by
  obtain ⟨es, rfl⟩ := hk
  induction es with
  | nil => exact h
  | cons e es ih => exact ih h.2

instance {event : Entry → Bool} {P : List Entry → Prop} [DecidablePred P] :
    DecidablePred (Whenever event P) := fun j => go j
where
  go : (j : List Entry) → Decidable (Whenever event P j)
    | [] => .isTrue trivial
    | _ :: j => @instDecidableAnd _ _ inferInstance (go j)

/-- Whether a session begins. -/
def Entry.isBegin : Entry → Bool
  | .began .. => true
  | _ => false

/-- Whether a caller asks for a URL. -/
def Entry.isNavigation : Entry → Bool
  | .navigated _ => true
  | _ => false

/-- Every loop has made the loads that it has accepted. -/
def LoadsMade (j : List Entry) : Prop :=
  ∀ e, asked e j = made e j

instance : DecidablePred LoadsMade := fun j =>
  decidable_of_iff (∀ e ∈ j.filterMap Entry.account?, asked e j = made e j) <| by
    refine ⟨fun h e => ?_, fun h e _ => h e⟩
    by_cases he : e ∈ j.filterMap Entry.account?
    · exact h e he
    · obtain ⟨ha, hr, -⟩ := of_fresh fun d hd hde => he (List.mem_filterMap.2 ⟨d, hd, hde⟩)
      rw [asked, made, ha, hr]

/-- The engine whose session an entry says was given up. -/
def Entry.ended? : Entry → Option Nat
  | .ended e => some e
  | _ => none

/-- The engine that an entry says was dropped. -/
def Entry.dropped? : Entry → Option Nat
  | .dropped e => some e
  | _ => none

theorem mem_ended?_iff {e : Nat} {j : List Entry} :
    e ∈ j.filterMap Entry.ended? ↔ .ended e ∈ j := by
  rw [List.mem_filterMap]
  refine ⟨?_, fun h => ⟨_, h, rfl⟩⟩
  rintro ⟨d, hd, hde⟩
  cases d with
  | ended d => exact Option.some.inj hde ▸ hd
  | _ => simp [Entry.ended?] at hde

theorem mem_dropped?_iff {e : Nat} {j : List Entry} :
    e ∈ j.filterMap Entry.dropped? ↔ .dropped e ∈ j := by
  rw [List.mem_filterMap]
  refine ⟨?_, fun h => ⟨_, h, rfl⟩⟩
  rintro ⟨d, hd, hde⟩
  cases d with
  | dropped d => exact Option.some.inj hde ▸ hd
  | _ => simp [Entry.dropped?] at hde

instance : DecidablePred NoTeardown := fun j =>
  decidable_of_iff (∀ e ∈ j.filterMap Entry.ended?, e ∈ j.filterMap Entry.dropped?) <| by
    simp only [mem_ended?_iff, mem_dropped?_iff]
    rfl

/-! ## sessions that have begun -/

/-- A session has begun only with an engine that was made. -/
structure Begun (x : Instance) : Prop where
  bounded : ∀ e t, .began e t ∈ x.journal → e ≤ x.attempts
  made : ∀ i l t, x.loop? i = some l → .began l.engine t ∈ x.journal →
    l.phase ≠ .building ∧ l.phase ≠ .refused

namespace Begun

variable {x y : Instance} {i : Nat} {l l' : Loop}

theorem fresh (s : BrowserSettings) : Begun (ofSettings s) := by
  constructor <;> simp [ofSettings, loop?]

/-- No loop changes, and no session begins. -/
theorem frame (hx : Begun x) (es : List Entry) (hl : y.loops = x.loops)
    (ha : x.attempts ≤ y.attempts) (hj : y.journal = es ++ x.journal)
    (hes : ∀ e t, .began e t ∉ es) : Begun y := by
  have hmem (e : Nat) (t : State) (h : .began e t ∈ y.journal) : .began e t ∈ x.journal := by
    rw [hj] at h
    exact (List.mem_append.1 h).resolve_left (hes e t)
  refine ⟨fun e t h => (hx.bounded e t (hmem e t h)).trans ha, fun i l t hil h => ?_⟩
  rw [loop?, hl] at hil
  exact hx.made i l t hil (hmem _ t h)

/-- A loop goes on or ends, but not as if its engine had not been made. -/
theorem setLoop (hx : Begun x) (hl : x.loop? i = some l) (he : l'.engine = l.engine)
    (h : l.phase ≠ .building → l.phase ≠ .refused → l'.phase ≠ .building ∧ l'.phase ≠ .refused) :
    Begun (x.setLoop i l') := by
  refine ⟨hx.bounded, fun k m t hm hb => ?_⟩
  rcases setLoop_cases hl hm with ⟨rfl, rfl⟩ | ⟨-, hm⟩
  · obtain ⟨hbuilding, hrefused⟩ := hx.made i l t hl (he ▸ hb)
    exact h hbuilding hrefused
  · exact hx.made k m t hm hb

theorem submitTo (hx : Begun x) (i : Nat) (t : Task) : Begun (x.submitTo i t).2 := by
  rw [submitTo_eq]
  split
  · exact hx
  · next l hl =>
    split
    · have hpush : Begun (x.setLoop i (l.push t)) := by
        refine hx.setLoop hl ?_ ?_ <;> simp_all [Loop.push_eq]
      exact hpush.frame [.queued l.engine t] rfl (Nat.le_refl _) rfl (by simp)
    · exact hx

theorem closeLoop (hx : Begun x) (i : Nat) : Begun (x.closeLoop i) := by
  unfold Instance.closeLoop
  split
  · exact hx
  · next l hl => refine hx.setLoop hl ?_ ?_ <;> rw [Loop.close_eq] <;> split <;> simp_all

theorem endLoop (hx : Begun x) (hl : x.loop? i = some l) {phase : Phase}
    (h : phase ≠ .building ∧ phase ≠ .refused) : Begun (x.endLoop i phase) := by
  rw [endLoop_eq hl]
  have hset : Begun (x.setLoop i (l.finish phase)) := hx.setLoop hl rfl fun _ _ => h
  exact hset.frame [.dropped l.engine] rfl (Nat.le_refl _) rfl (by simp)

theorem openLoop (hx : Begun x) (kind : Kind) : Begun (x.openLoop kind) := by
  have hmem (e : Nat) (t : State) (h : .began e t ∈ (x.openLoop kind).journal) :
      .began e t ∈ x.journal := List.mem_of_ne_of_mem (by simp) h
  refine ⟨fun e t h => (hx.bounded e t (hmem e t h)).trans (Nat.le_succ _), ?_⟩
  intro i m t hm hb
  rcases openLoop_cases hm with ⟨-, rfl⟩ | hm
  · -- the engine is a new one
    have hle : x.attempts + 1 ≤ x.attempts := hx.bounded _ t (hmem _ t hb)
    exact absurd hle (Nat.not_succ_le_self _)
  · exact hx.made i m t hm (hmem _ t hb)

theorem openSession (hx : Begun x) (hkept : Kept x) (hl : x.loop? i = some l)
    (ticker : Option Ticker) : Begun (x.openSession i l ticker) := by
  have hmem (e : Nat) (t : State) (h : .began e t ∈ (x.openSession i l ticker).journal) :
      e = l.engine ∨ .began e t ∈ x.journal := by
    rcases List.mem_cons.1 h with heq | h
    · exact .inl (Entry.began.inj heq).1
    · exact .inr h
  refine ⟨fun e t h => ?_, fun k m t hm hb => ?_⟩
  · rcases hmem e t h with rfl | h
    · exact hkept.numbered i l hl
    · exact hx.bounded e t h
  · rcases setLoop_cases hl hm with ⟨-, rfl⟩ | ⟨hik, hm⟩
    · simp
    · refine hx.made k m t hm ((hmem _ t hb).resolve_left fun heq => ?_)
      exact hik (hkept.distinct k i m l hm hl heq).symm

end Begun

section

variable {p : Call → Bool} {x y : Instance}

theorem Beat.begun (h : Beat p x y) (hx : Begun x) (hkept : Kept x) : Begun y := by
  cases h with
  | @note e he =>
    refine hx.frame [e] rfl (Nat.le_refl _) rfl fun d t hd => ?_
    obtain rfl := List.mem_singleton.1 hd
    simp [Entry.isAside] at he
  | @tell n _ => exact hx.frame [.telling x.tellings n] rfl (Nat.le_refl _) rfl (by simp)
  | aside _ _ _ _ _ _ _ _ | confirm _ => exact hx.frame [] rfl (Nat.le_refl _) rfl (by simp)
  | attempt => exact hx.frame [] rfl (Nat.le_succ _) rfl (by simp)
  | @touch i l hl phase v ticker hphase =>
    refine hx.setLoop hl rfl ?_
    revert hphase
    cases l.phase <;> cases phase <;> simp [Phase.rested]
  | openLoop k => exact hx.openLoop k
  | @refuse i l hl hb => exact hx.setLoop hl rfl fun hbuilding => absurd hb hbuilding
  | begin _ _ hl _ ticker => exact hx.openSession hkept hl ticker
  | @request _ c t m _ _ _ =>
    exact hx.frame [.requested c t.next] rfl (Nat.le_refl _) rfl (by simp)
  | submit _ => exact hx.submitTo _ _
  | @hide i h _ _ =>
    have hflip : Begun (x.setFlag h) := hx.frame [.flipped h] rfl (Nat.le_refl _) rfl (by simp)
    exact hflip.submitTo i _
  | @giveUp i _ =>
    have hend : Begun (x.endSession i) :=
      hx.frame [.ended (x.engineOf i)] rfl (Nat.le_refl _) rfl (by simp)
    exact hend.closeLoop i
  | @take i l t rest hl _ _ _ =>
    have hset : Begun (x.setLoop i { l with phase := .busy, queue := rest }) :=
      hx.setLoop hl rfl (by simp)
    exact hset.frame [.ran l.engine t] rfl (Nat.le_refl _) rfl (by simp)
  | @takeFlag i l h rest hl _ _ v =>
    have hset : Begun (x.setLoop i { l with phase := .busy, queue := rest, view := v }) :=
      hx.setLoop hl rfl (by simp)
    exact hset.frame [.telling x.tellings (.hidden h), .viewed l.engine v,
      .ran l.engine (.visibility h)] rfl (Nat.le_refl _) rfl (by simp)
  | stop hl _ _ => exact hx.endLoop hl (by simp)
  | crash hl _ => exact hx.endLoop hl (by simp)

/-- What every run keeps, and what it keeps as long as no task fails. -/
theorem Beats.manned (h : Beats p x y) (hm : Manned x) (hb : Begun x) (hkept : Kept x)
    (hsound : ∀ i l, y.loop? i = some l → l.phase ≠ .crashed) : Manned y ∧ Begun y := by
  induction h with
  | refl => exact ⟨hm, hb⟩
  | tail hfirst hlast ih =>
    have hkept' := (Beats.kept hfirst hkept).1
    obtain ⟨hm', hb'⟩ := ih ((hlast.kept hkept').2.sound hsound)
    exact ⟨hlast.manned hm' hkept' hsound, hlast.begun hb' hkept'⟩

end

/-! ## loops with loads in hand -/

/-- Every loop with a load in hand is in the midst of it, and has begun nothing
else since. -/
structure Seated (stack : List Frame) (x : Instance) : Prop where
  busy : ∀ i e u, .due i e u ∈ stack → x.IsBusy i e
  apart : stack.Pairwise fun f g => ∀ i e u, g = .due i e u →
    f ≠ .task i ∧ ∀ e' u', f ≠ .due i e' u'

namespace Seated

variable {stack : List Frame} {f : Frame} {own : Option Nat} {x y : Instance} {i e : Nat}
  {u : String} {l : Loop}

theorem fresh (x : Instance) : Seated [] x :=
  ⟨nofun, .nil⟩

/-- A loop that is doing something else has no load in hand. -/
theorem not_due (h : Seated stack x) (hl : x.loop? i = some l) (hb : l.phase ≠ .busy) (e : Nat)
    (u : String) : .due i e u ∉ stack := by
  intro hmem
  obtain ⟨m, hm, hbusy, -⟩ := h.busy i e u hmem
  rw [hl] at hm
  exact hb (Option.some.inj hm ▸ hbusy)

/-- Loops go on, but for one that has no load in hand. -/
theorem goOn (h : Seated stack x) (hxy : StaysBusy own x y)
    (hown : ∀ i e u, own = some i → .due i e u ∉ stack) : Seated stack y where
  busy i e u hmem := hxy i e (fun heq => hown i e u heq hmem) (h.busy i e u hmem)
  apart := h.apart

theorem pop (h : Seated (f :: stack) x) : Seated stack x where
  busy i e u hmem := h.busy i e u (List.mem_cons_of_mem f hmem)
  apart := (List.pairwise_cons.1 h.apart).2

theorem pushStart (h : Seated stack x) : Seated (.start :: stack) x where
  busy i e u hmem := h.busy i e u (by simpa using hmem)
  apart := List.pairwise_cons.2 ⟨by simp, h.apart⟩

theorem pushTask (h : Seated stack x) (hnone : ∀ e u, .due i e u ∉ stack) :
    Seated (.task i :: stack) x where
  busy i e u hmem := h.busy i e u (by simpa using hmem)
  apart := by
    refine List.pairwise_cons.2 ⟨fun g hg k e u heq => ⟨fun hik => ?_, by simp⟩, h.apart⟩
    obtain rfl : i = k := Frame.task.inj hik
    exact hnone e u (heq ▸ hg)

theorem pushDue (h : Seated stack x) (hnone : ∀ e u, .due i e u ∉ stack) (hb : x.IsBusy i e)
    (u : String) : Seated (.due i e u :: stack) x where
  busy i' e' u' hmem := by
    rcases List.mem_cons.1 hmem with heq | hmem
    · obtain ⟨rfl, rfl, -⟩ := Frame.due.inj heq
      exact hb
    · exact h.busy i' e' u' hmem
  apart := by
    refine List.pairwise_cons.2 ⟨fun g hg k e' u' heq => ⟨by simp, fun d v hdue => ?_⟩, h.apart⟩
    obtain rfl : i = k := (Frame.due.inj hdue).1
    exact hnone e' u' (heq ▸ hg)

/-- No other load is in hand on the loop of the one last begun. -/
theorem not_due_of_due (h : Seated (.due i e u :: stack) x) (e' : Nat) (u' : String) :
    .due i e' u' ∉ stack :=
  fun hmem => ((List.pairwise_cons.1 h.apart).1 _ hmem i e' u' rfl).2 e u rfl

theorem not_due_of_task (h : Seated (.task i :: stack) x) (e' : Nat) (u' : String) :
    .due i e' u' ∉ stack :=
  fun hmem => ((List.pairwise_cons.1 h.apart).1 _ hmem i e' u' rfl).1 rfl

/-- No engine with a load in hand was dropped. -/
theorem afloat (h : Seated stack x) (hkept : Kept x) (hmem : .due i e u ∈ stack) :
    .dropped e ∉ x.journal := by
  obtain ⟨l, hl, hb, rfl⟩ := h.busy i e u hmem
  exact (hkept.book i l hl).kept (by rw [hb]; rfl)

end Seated

/-! ## the voyage -/

/-- Engines report their loads and do not fail; a session begins when no loop has
loads to make, and callers navigate when no session is being torn down. -/
structure Fair (x : Instance) : Prop where
  engines : ∀ i l, x.loop? i = some l → l.kind.reports ∧ l.phase ≠ .crashed
  starts : Whenever Entry.isBegin LoadsMade x.journal
  calls : Whenever Entry.isNavigation NoTeardown x.journal

theorem Fair.of_changes {p : Call → Bool} {x y : Instance} (hy : Fair y) (h : Changes p x y)
    (hx : Kept x) : Fair x where
  engines i l hl := by
    obtain ⟨l', hl', -, hk⟩ := h.loop hl
    have hsound := (h.beats.kept hx).2.sound fun i l hl => (hy.engines i l hl).2
    exact ⟨hk ▸ (hy.engines i l' hl').1, hsound i l hl⟩
  starts := hy.starts.of_suffix h.journal
  calls := hy.calls.of_suffix h.journal

/-- What every errand keeps of an instance. -/
structure Base (x : Instance) : Prop where
  kept : Kept x
  orderly : Orderly x.outline
  manned : Manned x
  begun : Begun x

theorem Base.fresh (s : BrowserSettings) : Base (ofSettings s) :=
  ⟨kept_ofSettings s, orderly_ofSettings s, .fresh s, .fresh s⟩

theorem Base.of_changes {p : Call → Bool} {x y : Instance} (hx : Base x) (h : Changes p x y)
    (hy : Fair y) : Base y := by
  obtain ⟨hmanned, hbegun⟩ := h.beats.manned hx.manned hx.begun hx.kept
    fun i l hl => (hy.engines i l hl).2
  exact ⟨(h.beats.kept hx.kept).1, h.orderly hx.orderly, hmanned, hbegun⟩

namespace Base

variable {x : Instance} {i : Nat}

/-- The running session is the latest, and its loop takes what it is given. -/
theorem running (hx : Base x) (hi : x.dispatcher = some i) :
    ∃ l, x.loop? i = some l ∧ l.accepts ∧ latest x.journal = some l.engine ∧
      isRunning x.journal := by
  obtain ⟨hlast, l, hl, ha⟩ := hx.manned.current i hi
  have hg : x.outline.loop? i = some (strand l) := by rw [loop?_outline, hl, Option.map_some]
  have hr : isRunning x.journal = x.dispatcher.isSome := hx.orderly.running
  exact ⟨l, hl, ha, hx.orderly.latest i (strand l) hlast hg, by rw [hr, hi, Option.isSome_some]⟩

theorem resting (hx : Base x) (hi : x.dispatcher = none) : isRunning x.journal = false := by
  have hr : isRunning x.journal = x.dispatcher.isSome := hx.orderly.running
  rw [hr, hi, Option.isSome_none]

end Base

/-! ## what is entered in the journal -/

section

variable {x : Instance} {i : Nat} {l : Loop}

theorem url_submitTo (x : Instance) (i : Nat) (t : Task) : (x.submitTo i t).2.url = x.url := by
  rw [submitTo_eq]
  split
  · rfl
  · split <;> rfl

theorem accepts_push (l : Loop) (t : Task) : (l.push t).accepts = l.accepts := by
  rw [Loop.push_eq]
  split <;> rfl

/-- An accepted task is entered, and the loop goes on accepting. -/
theorem submitTo_entry (hl : x.loop? i = some l) (ha : l.accepts) (t : Task) :
    (x.submitTo i t).2.journal = .queued l.engine t :: x.journal ∧
      ∃ l', (x.submitTo i t).2.loop? i = some l' ∧ l'.accepts ∧ l'.engine = l.engine := by
  rw [submitTo_of_accepts hl ha]
  have hloop : ((x.setLoop i (l.push t)).note (.queued l.engine t)).loop? i = some (l.push t) :=
    (loop?_setLoop hl _ i).trans (if_pos rfl)
  exact ⟨rfl, l.push t, hloop, by rw [accepts_push, ha], (Onward.push l t).engine⟩

theorem setUrl_running (hi : x.dispatcher = some i) (hl : x.loop? i = some l) (ha : l.accepts)
    (v : String) :
    (x.setUrl v).url = v ∧
      (x.setUrl v).journal = .queued l.engine (.work (.load v)) :: .navigated v :: x.journal := by
  have hd : ({ x with url := v }.note (.navigated v)).dispatcher = some i := hi
  have hl' : ({ x with url := v }.note (.navigated v)).loop? i = some l := hl
  simp only [setUrl, submit, hd, submitTo_of_accepts hl' ha]
  exact ⟨rfl, rfl⟩

theorem setUrl_resting (hi : x.dispatcher = none) (v : String) :
    x.setUrl v = { x with url := v }.note (.navigated v) := by
  have hd : ({ x with url := v }.note (.navigated v)).dispatcher = none := hi
  simp only [setUrl, submit, hd]

theorem setUrl_staysBusy {own : Option Nat} (x : Instance) (v : String) :
    StaysBusy own x (x.setUrl v) := by
  have hurl : StaysBusy own x ({ x with url := v }.note (.navigated v)) := .of_loops rfl
  exact hurl.trans (.submit _ _)

/-- A session begins with two tasks: to load the tracked URL, and to reach the
requested state. -/
theorem begin_entries {pl : Plan} (hl : x.loop? i = some l) (hc : l.closed = false)
    (ho : pl.outcome = .ready) :
    ((x.built i pl).begin i l.engine).url = x.url ∧
      ((x.built i pl).begin i l.engine).journal =
        .queued l.engine (.lifecycle x.machine.begin.1) ::
          .queued l.engine (.work (.load x.url)) ::
            .began l.engine x.machine.begin.1 :: x.journal ∧
      StaysBusy (some i) x ((x.built i pl).begin i l.engine) := by
  obtain ⟨ticker, hbegin⟩ := begin_built hl ho
  have hopen : (x.openSession i l ticker).loop? i =
      some { l with phase := .idle, ticker := ticker } :=
    (loop?_setLoop hl _ i).trans (if_pos rfl)
  have ha : Loop.accepts { l with phase := .idle, ticker := ticker } := by
    simp [Loop.accepts, hc, Phase.isAlive]
  obtain ⟨hload, l', hl', ha', he'⟩ := submitTo_entry hopen ha (.work (.load x.url))
  obtain ⟨hstate, -⟩ := submitTo_entry hl' ha' (.lifecycle x.machine.begin.1)
  rw [hbegin]
  refine ⟨?_, ?_, ?_⟩
  · rw [url_submitTo, url_submitTo]
    rfl
  · rw [hstate, hload, he']
    rfl
  · have hset : StaysBusy (some i) x
        (x.setLoop i { l with phase := .idle, ticker := ticker }) := .setLoop hl rfl (.inl rfl)
    have hsession : StaysBusy (some i) x (x.openSession i l ticker) := hset.trans (.of_loops rfl)
    exact (hsession.trans (.submitTo _ _ _)).trans (.submitTo _ _ _)

theorem journal_closeLoop (x : Instance) (i : Nat) :
    (x.closeLoop i).url = x.url ∧ (x.closeLoop i).journal = x.journal := by
  unfold Instance.closeLoop
  split <;> exact ⟨rfl, rfl⟩

theorem built_neutral (pl : Plan) : Neutral (some i) x (x.built i pl) := by
  unfold built
  split
  · exact .refl x
  · next l hl => split <;> exact .setLoop hl rfl (.inl rfl)

end

/-! ## errands -/

/-- How far a scene has got. -/
structure Voyage (s : BrowserSettings) (t : Scene) : Prop where
  base : Base t.host
  seated : Seated t.stack t.host
  course : ∃ ahead, Course s ahead t.host.url t.host.journal ∧
    Hands s ahead t.stack t.host.journal

namespace Voyage

variable {s : BrowserSettings} {stack : List Frame} {x y : Instance} {i : Nat} {l : Loop}

theorem fresh (s : BrowserSettings) : Voyage s ⟨[], ofSettings s⟩ where
  base := .fresh s
  seated := .fresh _
  course := ⟨[], .fresh s, .fresh s⟩

/-- What has nothing to do with URLs changes nothing. -/
theorem neutral {own : Option Nat} (h : Voyage s ⟨stack, x⟩) (hn : Neutral own x y)
    (hown : ∀ i e u, own = some i → .due i e u ∉ stack) (hb : Base y) : Voyage s ⟨stack, y⟩ := by
  obtain ⟨ahead, hcourse, hhands⟩ := h.course
  obtain ⟨es, hj, hes⟩ := hn.journal
  refine ⟨hb, h.seated.goOn hn.busy hown, ahead, ?_, ?_⟩
  · simp only [hn.url, hj]
    exact hcourse.neutral hes
  · simp only [hj]
    exact hhands.neutral hes

/-- A caller navigates. -/
theorem navigate (h : Voyage s ⟨stack, x⟩) (v : String) (hb : Base (x.setUrl v))
    (hfair : Fair (x.setUrl v)) : Voyage s ⟨stack, x.setUrl v⟩ := by
  obtain ⟨ahead, hcourse, hhands⟩ := h.course
  have hafloat (i e : Nat) (u : String) (hmem : .due i e u ∈ stack) : .dropped e ∉ x.journal :=
    h.seated.afloat h.base.kept hmem
  have hbusy : StaysBusy none x (x.setUrl v) := setUrl_staysBusy x v
  refine ⟨hb, h.seated.goOn hbusy (by simp), ?_⟩
  cases hi : x.dispatcher with
  | some i =>
    obtain ⟨l, hl, ha, hlatest, hr⟩ := h.base.running hi
    obtain ⟨hurl, hj⟩ := setUrl_running hi hl ha v
    have hrest : NoTeardown x.journal := by
      have hcalls := hfair.calls
      rw [hj] at hcalls
      exact hcalls.2.1 rfl
    have hkept := (h.base.kept.book i l hl).kept (isAlive_of_accepts ha)
    simp only [hurl, hj]
    exact ⟨_, hcourse.navigate hlatest hr hkept v, hhands.navigate hrest hafloat l.engine v⟩
  | none =>
    have hrest : NoTeardown x.journal := by
      have hcalls := hfair.calls
      rw [setUrl_resting hi] at hcalls
      exact hcalls.1 rfl
    have hr := h.base.resting hi
    rw [setUrl_resting hi]
    exact ⟨ahead, hcourse.remember hr hrest v, hhands.remember hr hrest hafloat v⟩

/-- The session is given up. -/
theorem giveUp (h : Voyage s ⟨stack, x⟩) (hi : x.owned = some i) (hb : Base (x.giveUp i)) :
    Voyage s ⟨stack, x.giveUp i⟩ := by
  obtain ⟨ahead, hcourse, hhands⟩ := h.course
  obtain ⟨l, hl, -, hlatest, -⟩ := h.base.running (h.base.manned.tied ▸ hi)
  have hengine : x.engineOf i = l.engine := by
    simp only [engineOf, hl, Option.map_some, Option.getD_some]
  have hbusy : StaysBusy none x (x.giveUp i) := by
    have hend : StaysBusy none x (x.endSession i) := .of_loops rfl
    exact hend.trans (.closeLoop _ i)
  obtain ⟨hurl, hj⟩ : (x.giveUp i).url = x.url ∧
      (x.giveUp i).journal = .ended l.engine :: x.journal := by
    obtain ⟨hurl, hj⟩ := journal_closeLoop (x.endSession i) i
    exact ⟨hurl, hj.trans (by rw [← hengine]; rfl)⟩
  refine ⟨hb, h.seated.goOn hbusy (by simp), ahead, ?_, ?_⟩
  · simp only [hurl, hj]
    exact hcourse.giveUp hlatest
  · simp only [hj]
    exact hhands.giveUp hlatest

/-- A loop that was closed comes to its end. -/
theorem stop (h : Voyage s ⟨stack, x⟩) {rest : List Message} (hl : x.loop? i = some l)
    (hidle : l.phase = .idle) (hq : l.queue = .stop :: rest) (hb : Base (x.endLoop i .stopped)) :
    Voyage s ⟨stack, x.endLoop i .stopped⟩ := by
  obtain ⟨ahead, hcourse, hhands⟩ := h.course
  have hall : asked l.engine x.journal = loads l.engine x.journal := by
    obtain ⟨-, haccepted, -⟩ := ((h.base.kept.book i l hl).stop hidle hq).stopped rfl
    rw [← hcourse.made]
    exact congrArg loadsOf (haccepted.trans (List.append_nil _))
  have hbusy : StaysBusy (some i) x (x.endLoop i .stopped) := by
    rw [endLoop_eq hl]
    have hset : StaysBusy (some i) x (x.setLoop i (l.finish .stopped)) :=
      .setLoop hl rfl (.inl rfl)
    exact hset.trans (.of_loops rfl)
  have hnone := h.seated.not_due hl (by simp [hidle])
  refine ⟨hb, h.seated.goOn hbusy fun k e u heq => Option.some.inj heq ▸ hnone e u, ahead, ?_⟩
  rw [endLoop_eq hl]
  exact ⟨hcourse.drop hall, hhands.extend rfl rfl rfl (List.subset_cons_self _ _)⟩

/-- A start opens a loop. -/
theorem openLoop (h : Voyage s ⟨stack, x⟩) (hx : x.owned = none) (kind : Kind)
    (hb : Base (x.openLoop kind)) : Voyage s ⟨.start :: stack, x.openLoop kind⟩ := by
  obtain ⟨ahead, hcourse, hhands⟩ := h.course
  have hr := h.base.resting (h.base.manned.tied ▸ hx)
  have hes : ∀ e ∈ [Entry.created (x.attempts + 1) { x.settings with url := x.url }],
      e.isNeutral := by
    simp [Entry.isNeutral]
  have hbusy : StaysBusy none x (x.openLoop kind) := .openLoop x kind
  exact ⟨hb, (h.seated.goOn hbusy (by simp)).pushStart, ahead, hcourse.neutral hes,
    (hhands.pushStart hr).neutral hes⟩

/-- The engine is ready, and its session begins. -/
theorem begin (h : Voyage s ⟨.start :: stack, x⟩) {pl : Plan} (hl : x.loop? i = some l)
    (hbuilding : l.phase = .building) (ho : pl.outcome = .ready)
    (hb : Base ((x.built i pl).begin i l.engine))
    (hfair : Fair ((x.built i pl).begin i l.engine)) :
    Voyage s ⟨stack, (x.built i pl).begin i l.engine⟩ := by
  obtain ⟨ahead, hcourse, hhands⟩ := h.course
  obtain ⟨hurl, hj, hbusy⟩ := begin_entries hl (h.base.manned.building i l hl hbuilding).2 ho
  have hclear (d : Nat) : asked d x.journal = loads d x.journal := by
    have hstarts := hfair.starts
    rw [hj] at hstarts
    rw [← hcourse.made]
    exact hstarts.2.2.1 rfl d
  have hnew (t : State) : .began l.engine t ∉ x.journal :=
    fun hmem => (h.base.begun.made i l t hl hmem).1 hbuilding
  have hkept := (h.base.kept.book i l hl).kept (by rw [hbuilding]; rfl)
  have hnone := h.seated.pop.not_due hl (by simp [hbuilding])
  obtain rfl := hcourse.ahead_of_clear hclear
  refine ⟨hb, h.seated.pop.goOn hbusy fun k e u heq => Option.some.inj heq ▸ hnone e u,
    [x.url], ?_, ?_⟩
  · simp only [hurl, hj]
    exact hcourse.begin hclear hnew hkept _
  · simp only [hj]
    exact hhands.begin (hcourse.url_of_clear hclear) _

/-- A loop runs a task that loads and reports no URL. -/
theorem run (h : Voyage s ⟨stack, x⟩) {t : Task} {rest : List Message} (hl : x.loop? i = some l)
    (hidle : l.phase = .idle) (ht : t.url? = none)
    (hb : Base ((x.take i l t rest).effect i t)) :
    Voyage s ⟨.task i :: stack, (x.take i l t rest).effect i t⟩ := by
  have hnone := h.seated.not_due hl (by simp [hidle])
  have hrun := h.neutral (effect_neutral rest hl ht)
    (fun k e u heq => Option.some.inj heq ▸ hnone e u) hb
  obtain ⟨ahead, hcourse, hhands⟩ := hrun.course
  exact ⟨hb, hrun.seated.pushTask hnone, ahead, hcourse, hhands.pushTask i⟩

/-- A load is made, and reported for the first time. -/
theorem load (h : Voyage s ⟨stack, x⟩) {u : String} {rest : List Message}
    (hl : x.loop? i = some l) (hidle : l.phase = .idle)
    (hq : l.queue = .run (.work (.load u)) :: rest)
    (hb : Base (((x.take i l (.work (.load u)) rest).note (.loaded l.engine u)).raise
      (.urlChanged u))) :
    Voyage s ⟨.due i l.engine u :: stack,
      ((x.take i l (.work (.load u)) rest).note (.loaded l.engine u)).raise (.urlChanged u)⟩ := by
  obtain ⟨ahead, hcourse, hhands⟩ := h.course
  obtain ⟨ts, hts, -⟩ := (h.base.kept.book i l hl).next (by rw [hidle]; rfl) hq
  have hasked : asked l.engine x.journal = loads l.engine x.journal ++ u :: loadsOf ts := by
    rw [asked, hts, List.append_nil, loadsOf_append, ← hcourse.made]
    rfl
  obtain ⟨hlatest, rfl⟩ := hcourse.latest_of_asked hasked
  have hseat : isRunning x.journal ∨ .ended l.engine ∈ x.journal := by
    cases hr : isRunning x.journal with
    | true => exact .inl rfl
    | false => exact .inr (hcourse.retired hr l.engine hlatest)
  have hnone := h.seated.not_due hl (by simp [hidle])
  -- another loop has another engine
  have hother (k : Nat) (w : String) : .due k l.engine w ∉ stack := by
    intro hmem
    obtain ⟨m, hm, -, he⟩ := h.seated.busy k l.engine w hmem
    obtain rfl := h.base.kept.distinct k i m l hm hl he
    exact hnone l.engine w hmem
  have hset : (x.setLoop i { l with phase := .busy, queue := rest }).loop? i =
      some { l with phase := .busy, queue := rest } := (loop?_setLoop hl _ i).trans (if_pos rfl)
  have hbusy : StaysBusy (some i) x
      (x.setLoop i { l with phase := .busy, queue := rest }) := .setLoop hl rfl (.inl rfl)
  have hnow : StaysBusy (some i) x
      (((x.take i l (.work (.load u)) rest).note (.loaded l.engine u)).raise (.urlChanged u)) :=
    hbusy.trans (.of_loops rfl)
  refine ⟨hb, (h.seated.goOn hnow fun k e w heq => Option.some.inj heq ▸ hnone e w).pushDue hnone
    ⟨_, hset, rfl, rfl⟩ u, loadsOf ts, hcourse.load hlatest _, ?_⟩
  have hlast : (loadsOf ts).getLast?.getD u = requested s x.journal :=
    (getLast?_load u x.url _).symm.trans hcourse.promised
  exact hhands.load hlatest hseat hlast hother i _

/-- A load in hand is reported as finished. -/
theorem finish {e : Nat} {u : String} (h : Voyage s ⟨.due i e u :: stack, x⟩)
    (hb : Base (x.raise (.loadFinished u))) :
    Voyage s ⟨.task i :: stack, x.raise (.loadFinished u)⟩ := by
  obtain ⟨ahead, hcourse, hhands⟩ := h.course
  have hnone := h.seated.not_due_of_due
  have hbusy : StaysBusy none x (x.raise (.loadFinished u)) := .of_loops rfl
  have hlast := (hhands.due i e u List.mem_cons_self).1
  exact ⟨hb, (h.seated.pop.goOn hbusy (by simp)).pushTask hnone, ahead, hcourse.finish hlast _,
    hhands.finish _⟩

/-- A loop waits again. -/
theorem rest (h : Voyage s ⟨.task i :: stack, x⟩) (hb : Base (x.restLoop i)) :
    Voyage s ⟨stack, x.restLoop i⟩ := by
  obtain ⟨ahead, hcourse, hhands⟩ := h.course
  have hpop : Voyage s ⟨stack, x⟩ := ⟨h.base, h.seated.pop, ahead, hcourse, hhands.pop⟩
  have hnone := h.seated.not_due_of_task
  exact hpop.neutral (restLoop_neutral x i) (fun k e u heq => Option.some.inj heq ▸ hnone e u) hb

end Voyage

/-- Every errand keeps to the course. -/
theorem Errand.voyage {s : BrowserSettings} {t t' : Scene} (h : Errand t t') (ht : Voyage s t)
    (hfair : Fair t'.host) : Voyage s t' := by
  have hb : Base t'.host := ht.base.of_changes h.changes hfair
  have hfair' : Fair t.host := hfair.of_changes h.changes ht.base.kept
  cases h with
  | move _ hn => exact ht.neutral hn (by simp) hb
  | navigate v => exact ht.navigate v hb hfair
  | giveUp hi => exact ht.giveUp hi hb
  | stop hl hidle hq => exact ht.stop hl hidle hq hb
  | openLoop _ hx => exact ht.openLoop hx _ hb
  | begin _ hi ho =>
    obtain ⟨l, hl, hbuilding, rfl⟩ := hi
    exact ht.begin hl hbuilding ho hb hfair
  | @fail stack x pl i e _ hi _ =>
    obtain ⟨l, hl, hbuilding, -⟩ := hi
    obtain ⟨ahead, hcourse, hhands⟩ := ht.course
    have hpop : Voyage s ⟨stack, x⟩ := ⟨ht.base, ht.seated.pop, ahead, hcourse, hhands.pop⟩
    have hnone := hpop.seated.not_due hl (by simp [hbuilding])
    exact hpop.neutral (built_neutral pl) (fun k e u heq => Option.some.inj heq ▸ hnone e u) hb
  | @run stack x i l t rest hl hidle hq hload =>
    have hurl : t.url? = none := by
      obtain ⟨ahead, hcourse, -⟩ := ht.course
      obtain ⟨ts, hts, -⟩ := (ht.base.kept.book i l hl).next (by rw [hidle]; rfl) hq
      match t with
      | .work (.load u) =>
        -- the engine would not report the load, or fail
        rcases hload u rfl with hfails | hsilent
        · have hloop : (x.take i l (.work (.load u)) rest).loop? i =
              some { l with phase := .busy, queue := rest } := by
            rw [loop?_take hl, if_pos rfl]
          have hcrashed : ((x.take i l (.work (.load u)) rest).arrive i u).loop? i =
              some ({ l with phase := .busy, queue := rest }.finish .crashed) := by
            simp only [arrive, hloop, hfails, if_true]
            have hnoted : ((x.take i l (.work (.load u)) rest).note
              (.loaded l.engine u)).loop? i = some { l with phase := .busy, queue := rest } := hloop
            exact loop?_endLoop hnoted .crashed
          exact absurd rfl (hfair.engines i _ hcrashed).2
        · have hk := (hfair'.engines i l hl).1
          simp [hsilent] at hk
      | .report r =>
        have hmem : .report r ∈ accepted l.engine x.journal := by simp [hts]
        exact hcourse.clean l.engine r (mem_accepted hmem)
      | .work (.view _) | .lifecycle _ | .visibility _ | .block => rfl
    exact ht.run hl hidle hurl hb
  | load hl hidle hq _ _ => exact ht.load hl hidle hq hb
  | finish _ _ => exact ht.finish hb
  | rest => exact ht.rest hb

/-- What is kept without any condition, and the voyage as long as all is fair. -/
theorem Errands.voyage {s : BrowserSettings} {t t' : Scene} (h : Errands t t') (ht : Voyage s t)
    (hfair : Fair t'.host) : Voyage s t' := by
  induction h with
  | refl => exact ht
  | tail hfirst hlast ih =>
    have hkept := ((Errands.changes hfirst).beats.kept ht.base.kept).1
    exact hlast.voyage (ih (hfair.of_changes hlast.changes hkept)) hfair

/-! ## all runs -/

/-- A loop with nothing in its queue has run all that it accepted, if its engine
was made and did not fail. -/
theorem Base.drained {x : Instance} {i : Nat} {l : Loop} (hx : Base x) (hl : x.loop? i = some l)
    (hq : l.queue = []) (hmade : l.phase ≠ .refused) (hsound : l.phase ≠ .crashed) :
    accepted l.engine x.journal = executed l.engine x.journal := by
  have hbook := hx.kept.book i l hl
  have hends : l.phase.isAlive ∨ l.phase = .stopped := by
    cases hphase : l.phase <;> simp_all [Phase.isAlive]
  rcases hends with halive | hstopped
  · obtain ⟨ts, hts, hqueue⟩ := hbook.waiting halive
    rw [hq] at hqueue
    have hnone : ts = [] := List.map_eq_nil_iff.1 (List.append_eq_nil_iff.1 hqueue.symm).1
    rw [hts, hnone, List.append_nil, List.append_nil]
  · exact (hbook.stopped hstopped).2.1.trans (List.append_nil _)

namespace Voyage

variable {s : BrowserSettings} {stack : List Frame} {x : Instance} {i : Nat} {l : Loop}

/-- A loop with nothing in its queue has made all its loads. -/
theorem asked_of_drained (h : Voyage s ⟨stack, x⟩) (hl : x.loop? i = some l) (hq : l.queue = [])
    (hmade : l.phase ≠ .refused) (hsound : l.phase ≠ .crashed) :
    asked l.engine x.journal = loads l.engine x.journal := by
  obtain ⟨ahead, hcourse, -⟩ := h.course
  rw [← hcourse.made]
  exact congrArg loadsOf (h.base.drained hl hq hmade hsound)

/-- What a session is to load starts with the URL tracked when it began. -/
theorem asked_of_began (h : Voyage s ⟨stack, x⟩) {e : Nat} {t : State} {before : List Entry}
    (hbegan : .began e t :: before <:+ x.journal) :
    asked e x.journal = tracked s before :: visited e x.journal := by
  obtain ⟨ahead, hcourse, -⟩ := h.course
  obtain ⟨htracked, hasked⟩ := hcourse.begun e t before hbegan
  rw [htracked, hasked]

theorem loads_prefix (h : Voyage s ⟨stack, x⟩) (e : Nat) :
    loads e x.journal <+: asked e x.journal := by
  obtain ⟨ahead, hcourse, -⟩ := h.course
  exact hcourse.prefix_asked e

/-- With nothing in its queue the running session is where it was asked to go. -/
theorem arrives (h : Voyage s ⟨stack, x⟩) (hi : x.dispatcher = some i) (hl : x.loop? i = some l)
    (hq : l.queue = []) (hsound : l.phase ≠ .crashed) :
    x.url = requested s x.journal ∧ lastLoaded x.journal = some x.url := by
  obtain ⟨ahead, hcourse, -⟩ := h.course
  obtain ⟨l', hl', ha, hlatest, hr⟩ := h.base.running hi
  obtain rfl : l' = l := Option.some.inj (hl'.symm.trans hl)
  have hmade : l'.phase ≠ .refused := fun hrefused => by
    have halive := isAlive_of_accepts ha
    simp [hrefused, Phase.isAlive] at halive
  have hnone : ahead = [] := by
    refine hcourse.ahead_eq_nil fun e he => ?_
    obtain rfl : l'.engine = e := Option.some.inj (hlatest.symm.trans he)
    exact h.asked_of_drained hl hq hmade hsound
  have hurl : x.url = requested s x.journal := by
    have hlast := hcourse.promised
    rwa [hnone] at hlast
  exact ⟨hurl, hurl ▸ hcourse.arrived hr hnone⟩

end Voyage

/-- In every run whose URLs come from navigating alone, with engines that report
each load as it is made and do not fail, in which a session begins when no loop
has loads to make and callers navigate when no session is being torn down, which
is so from the moment it is given up until its engine is dropped: each session
loads the URL that was tracked when it began and then those that callers and
observers asked for in it, in order and once each; and whenever the queue of the
running session is empty, the tracked URL is the one asked for last, or the
configured one, and the last that was loaded. -/
theorem last_navigation_wins (s : BrowserSettings) (ts : List Turn)
    (hts : ∀ t ∈ ts, t.every Call.navigatesOnly)
    (hengines : ∀ l ∈ ((ofSettings s).play ts).loops, l.kind.reports ∧ l.phase ≠ .crashed)
    (hstarts : Whenever Entry.isBegin LoadsMade ((ofSettings s).play ts).journal)
    (hcalls : Whenever Entry.isNavigation NoTeardown ((ofSettings s).play ts).journal) :
    let x := (ofSettings s).play ts
    x.url = tracked s x.journal ∧
      (∀ e t before, .began e t :: before <:+ x.journal →
        loads e x.journal <+: tracked s before :: visited e x.journal ∧
          ∀ i l, x.loop? i = some l → l.engine = e → l.queue = [] →
            loads e x.journal = tracked s before :: visited e x.journal) ∧
      (∀ i l, x.dispatcher = some i → x.loop? i = some l → l.queue = [] →
        x.url = requested s x.journal ∧ lastLoaded x.journal = some x.url) := by
  intro x
  have hfair : Fair x := ⟨fun i l hl => hengines l (List.mem_of_getElem? hl), hstarts, hcalls⟩
  have hvoyage : Voyage s ⟨[], x⟩ :=
    Errands.voyage (play_errands hts (obeys_ofSettings _ s)) (.fresh s) hfair
  obtain ⟨ahead, hcourse, -⟩ := hvoyage.course
  refine ⟨hcourse.current.symm, fun e t before hbegan => ?_, fun i l hi hl hq => ?_⟩
  · rw [← hvoyage.asked_of_began hbegan]
    refine ⟨hvoyage.loads_prefix e, ?_⟩
    rintro i l hl rfl hq
    have hmem : .began l.engine t ∈ x.journal := hbegan.subset List.mem_cons_self
    have hmade := (hvoyage.base.begun.made i l t hl hmem).2
    exact (hvoyage.asked_of_drained hl hq hmade (hfair.engines i l hl).2).symm
  · exact hvoyage.arrives hi hl hq (hfair.engines i l hl).2

/-- A caller navigates before the start and while a load is queued; an observer
navigates on between the two reports of a load, the second of which sets the URL
back; and the next session goes on from where the first one ended. -/
def detour : List Turn :=
  [.call (.register .lifecycle "o" [⟨.urlChanged "b", .setUrl "c", 1⟩]), .call (.setUrl "a"),
    .call (.start { kind := .echo }), .call (.setUrl "b"), .message 0, .message 0, .message 0,
    .call .shutdown, .call (.setUrl "d"), .call (.start { kind := .headless }), .message 1,
    .message 1]

theorem last_navigation_wins_detour :
    let s := ({} : Settings).browser
    let x := (ofSettings s).play detour
    loads 1 x.journal = ["a", "b", "c"] ∧ loads 2 x.journal = ["d"] ∧ requested s x.journal = "d" ∧
      x.url = "d" ∧ lastLoaded x.journal = some "d" := by
  intro s x
  have hrun := last_navigation_wins s detour (by decide) (by decide) (by decide) (by decide)
  have hreq : requested s x.journal = "d" := by decide
  have hqueue : (x.loop? 1).map (·.queue) = some [] := by decide
  obtain ⟨l, hl, hq⟩ := Option.map_eq_some_iff.1 hqueue
  obtain ⟨hurl, hlast⟩ := hrun.2.2 1 l (by decide) hl hq
  exact ⟨by decide, by decide, hreq, hurl.trans hreq, hlast.trans (congrArg some (hurl.trans hreq))⟩

/-- A loop that was given up while it stalled is not gone, and what it loads later
hides the URL that was asked for in the meantime. -/
example :
    let s := ({} : Settings).browser
    let x := (ofSettings s).play
      [.call (.start { kind := .echo }), .message 0, .message 0, .stall 0, .call (.setUrl "a"),
        .call .shutdown, .call (.setUrl "b"), .goOn 0, .message 0]
    ¬Whenever Entry.isNavigation NoTeardown x.journal ∧ requested s x.journal = "b" ∧
      x.url = "a" := by
  decide

end BrowserHost.Instance
