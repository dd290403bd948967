import BrowserHost.Proofs.Alike
import BrowserHost.Proofs.Confirmation

/-!
# BrowserHost.Proofs.Isolation

What a closed loop still does to the sessions after its own.  A shutdown that
gives up on a loop leaves it with its queue, and every task in there tells
observers and the machine what it does as if the session were still running.

* `speaks?`: the notice that the next message of a loop tells first;
* `isolated_iff_silent`: the loop stays apart from everyone else exactly as
  long as every message it takes tells nothing;
* `not_isolated_reprieve`: a run in which it does not.
-/

namespace BrowserHost.Instance

open Engine Outline

/-! ## what a loop says -/

/-- The notice that a message tells first, if any, when the loop takes it. -/
def firstNotice? (x : Instance) (l : Loop) : Message → Option Notice
  | .run (.work (.load u)) =>
    if !l.kind.failsOn u && l.kind.reports then some (.urlChanged u) else none
  | .run (.lifecycle s) => if x.machine.applied = s then none else some (.stateChanged s)
  | .run (.visibility h) => some (.hidden h)
  | .run (.report (.urlChanged u)) => some (.urlChanged u)
  | .run (.report (.loadFinished u)) => some (.loadFinished u)
  | .run (.report .closureRequested) => some .closureRequested
  | _ => none

/-- The notice that a loop tells first in its turn, if it takes a message that
tells any. -/
def speaks? (x : Instance) (i : Nat) : Option Notice :=
  match x.loop? i with
  | none => none
  | some l =>
    match l.phase, l.queue with
    | .idle, m :: _ => x.firstNotice? l m
    | _, _ => none

/-! ## a loop that says nothing -/

section

variable {a : Nat} {x y : Instance}

theorem endLoop_left (h : Alike a x y) (phase : Phase) : Alike a (x.endLoop a phase) y := by
  obtain ⟨l, hl, hc⟩ := h.shut
  have hend : Alike a (x.setLoop a (l.finish phase)) y := h.setLoop_left hc
  unfold endLoop
  rw [hl]
  exact hend.note_left rfl

theorem setView_left (h : Alike a x y) (v : View) : Alike a (x.setView a v) y := by
  obtain ⟨l, hl, hc⟩ := h.shut
  have hview : Alike a (x.setLoop a { l with view := v }) y := h.setLoop_left hc
  unfold setView
  rw [hl]
  exact hview.note_left rfl

theorem block_left (h : Alike a x y) : Alike a (x.block a) y := by
  obtain ⟨l, hl, hc⟩ := h.shut
  have hheld : Alike a (x.setLoop a { l with phase := .held }) y := h.setLoop_left hc
  unfold block
  rw [hl]
  exact hheld

theorem restLoop_left (h : Alike a x y) : Alike a (x.restLoop a) y := by
  obtain ⟨l, hl, hc⟩ := h.shut
  have hclosed : l.rest.closed := by
    unfold Loop.rest
    split
    · exact hc
    · exact hc
  unfold restLoop
  rw [hl]
  exact h.setLoop_left hclosed

theorem tickLoop_left (h : Alike a x y) : Alike a (x.tickLoop a) y := by
  obtain ⟨l, hl, hc⟩ := h.shut
  rw [tickLoop_eq hl]
  have hticker : Alike a (x.setLoop a { l with ticker := (l.tick x.now).2.ticker }) y :=
    h.setLoop_left hc
  exact hticker.framesDisplayed_left _

theorem stall_left (h : Alike a x y) : Alike a (x.stall a) y := by
  obtain ⟨l, hl, hc⟩ := h.shut
  unfold stall
  simp only [hl]
  split
  · exact h.setLoop_left hc
  · exact h

/-- A task that tells nothing leaves no trace outside its loop. -/
theorem runTask_left {answer : Caller} {l : Loop} {t : Task} (h : Alike a x y)
    (hl : x.loop? a = some l) (hsilent : x.firstNotice? l (.run t) = none) :
    Alike a (runTask answer x a t) y := by
  match t with
  | .work (.load u) =>
    have hloaded : Alike a (x.note (.loaded l.engine u)) y := h.note_left rfl
    simp only [runTask, load, hl]
    by_cases hfail : l.kind.failsOn u
    · rw [if_pos hfail]
      exact endLoop_left hloaded _
    · have hmute : ¬l.kind.reports := by simpa [firstNotice?, hfail] using hsilent
      rw [if_neg hfail, if_neg hmute]
      exact hloaded
  | .work (.view v) => exact setView_left h v
  | .lifecycle s =>
    have hsame : x.machine.applied = s := by simpa [firstNotice?] using hsilent
    have hview : (x.setView a (View.of s x.hidden)).machine = x.machine := by
      simp only [setView, hl]
      rfl
    have hconfirmed : confirm answer (x.setView a (View.of s x.hidden)) s =
        x.setView a (View.of s x.hidden) := by
      simp only [confirm, Machine.confirm, hview, hsame, if_true]
      rw [← hview]
      rfl
    simp only [runTask]
    rw [hconfirmed]
    exact setView_left h _
  | .visibility v => simp [firstNotice?] at hsilent
  | .report (.frames n) => exact h.framesDisplayed_left n
  | .report (.urlChanged _) | .report (.loadFinished _) | .report .closureRequested =>
    simp [firstNotice?] at hsilent
  | .block => exact block_left h

/-- A message that tells nothing leaves no trace outside its loop. -/
theorem message_left (h : Alike a x y) (hsilent : x.speaks? a = none) :
    Alike a (x.turn (.message a)) y := by
  obtain ⟨l, hl, hc⟩ := h.shut
  unfold speaks? at hsilent
  simp only [hl] at hsilent
  simp only [turn, stepLoop, hl]
  split
  · exact endLoop_left h _
  · next t rest hidle hq =>
    simp only [hidle, hq] at hsilent
    have htaken : Alike a (x.take a l t rest) y := by
      have hbusy : Alike a (x.setLoop a { l with phase := .busy, queue := rest }) y :=
        h.setLoop_left hc
      exact hbusy.note_left rfl
    have hloop : (x.take a l t rest).loop? a = some { l with phase := .busy, queue := rest } := by
      rw [loop?_take hl, if_pos rfl]
    have hsame : (x.take a l t rest).firstNotice? { l with phase := .busy, queue := rest }
        (.run t) = none := hsilent
    exact restLoop_left (runTask_left htaken hloop hsame)
  · exact h

/-! ## a loop that says something -/

theorem notices_suffix {j k : List Entry} (h : j <:+ k) : notices j <:+ notices k :=
  h.filterMap _

/-- A report tells its notice first. -/
theorem report_tells {answer : Caller} (ha : Answers (fun _ => true) answer) (x : Instance)
    {r : Report} {m : Notice} (hm : notices (x.raise r).journal = m :: notices x.journal) :
    m :: notices x.journal <:+ notices (report answer x r).journal := by
  have hobeys : x.Obeys fun _ => true := fun o _ => Reaction.everyAll_true o.reactions
  rw [← hm]
  exact notices_suffix (raise_leads ha r hobeys).changes.journal

theorem report_journal {answer : Caller} (ha : Answers (fun _ => true) answer) (x : Instance)
    (r : Report) : x.journal <:+ (report answer x r).journal := by
  have hobeys : x.Obeys fun _ => true := fun o _ => Reaction.everyAll_true o.reactions
  exact (raise_extends (p := fun _ => true) x r).journal.trans
    (raise_leads ha r hobeys).changes.journal

/-- A task that is to tell a notice does so. -/
theorem runTask_tells {answer : Caller} (ha : Answers (fun _ => true) answer) {l : Loop}
    {t : Task} {m : Notice} (hl : x.loop? a = some l)
    (hm : x.firstNotice? l (.run t) = some m) :
    m :: notices x.journal <:+ notices (runTask answer x a t).journal := by
  have hobeys : x.Obeys fun _ => true := fun o _ => Reaction.everyAll_true o.reactions
  have heffect (heq : notices (x.effect a t).journal = m :: notices x.journal) :
      m :: notices x.journal <:+ notices (runTask answer x a t).journal := by
    rw [← heq]
    exact notices_suffix (runTask_leads ha a t hobeys).changes.journal
  match t with
  | .work (.load u) =>
    simp only [firstNotice?, Option.ite_none_right_eq_some, Bool.and_eq_true, Bool.not_eq_true',
      Option.some.injEq] at hm
    obtain ⟨⟨hfail, hreports⟩, rfl⟩ := hm
    simp only [runTask, load, hl, hfail, hreports, Bool.false_eq_true, if_false, if_true]
    have hfirst := report_tells ha (x.note (.loaded l.engine u))
      (r := .urlChanged u) (m := .urlChanged u) rfl
    exact hfirst.trans (notices_suffix (report_journal ha _ (.loadFinished u)))
  | .work (.view _) => simp [firstNotice?] at hm
  | .lifecycle s =>
    simp only [firstNotice?, Option.ite_none_left_eq_some, Option.some.injEq] at hm
    obtain ⟨hne, rfl⟩ := hm
    refine heffect ?_
    have hview : (x.setView a (View.of s x.hidden)).machine = x.machine ∧
        notices (x.setView a (View.of s x.hidden)).journal = notices x.journal := by
      simp only [setView, hl]
      exact ⟨rfl, rfl⟩
    rw [← hview.1] at hne
    rw [← hview.2]
    simp only [effect]
    generalize x.setView a (View.of s x.hidden) = z at hne
    simp only [settleOn, Machine.confirm, if_neg hne, if_true]
    rfl
  | .visibility v =>
    simp only [firstNotice?, Option.some.injEq] at hm
    subst hm
    refine heffect ?_
    simp only [effect, setView, hl]
    rfl
  | .report (.urlChanged _) | .report (.loadFinished _) | .report .closureRequested =>
    simp only [firstNotice?, Option.some.injEq] at hm
    subst hm
    exact heffect rfl
  | .report (.frames _) | .block => simp [firstNotice?] at hm

/-- A message that is to tell a notice does so. -/
theorem message_tells {m : Notice} (hm : x.speaks? a = some m) :
    m :: notices x.journal <:+ notices (x.turn (.message a)).journal := by
  unfold speaks? at hm
  cases hl : x.loop? a with
  | none => simp [hl] at hm
  | some l =>
    simp only [hl] at hm
    split at hm
    · next msg rest hidle hq =>
      cases msg with
      | stop => simp [firstNotice?] at hm
      | run t =>
        have hloop : (x.take a l t rest).loop? a =
            some { l with phase := .busy, queue := rest } := by
          rw [loop?_take hl, if_pos rfl]
        have htold := runTask_tells (call_leads fun _ => true) hloop hm
        have hrest := restLoop_extends (p := fun _ => true)
          (runTask call (x.take a l t rest) a t) a
        simp only [turn, stepLoop, hl, hidle, hq]
        exact htold.trans (notices_suffix hrest.journal)
    · simp at hm

end

/-! ## isolation -/

/-- Whether a notice is about the state or the visibility of a session. -/
def tellsSession : Notice → Bool
  | .stateChanged _ | .hidden _ => true
  | _ => false

/-- What callers and observers can tell of a session. -/
structure Sight where
  notices : List Notice
  applied : State
  requested : State
  url : String
  hidden : Bool
  deriving DecidableEq

/-- What can be told of the sessions so far, to those who hear the notices that
`w` picks. -/
def sight (w : Notice → Bool) (x : Instance) : Sight where
  notices := (notices x.journal).filter w
  applied := x.machine.applied
  requested := x.machine.requested
  url := x.url
  hidden := x.hidden

/-- A schedule without the turns of a loop. -/
def without (a : Nat) (ts : List Turn) : List Turn :=
  ts.filter fun t => !t.isOf a

/-- At every moment of the schedule, no one can tell whether the loop does
anything at all. -/
def Isolated (w : Notice → Bool) (a : Nat) (x : Instance) (ts : List Turn) : Prop :=
  ∀ n, (x.play (ts.take n)).sight w = (x.play (without a (ts.take n))).sight w

/-- No message that the loop takes along the schedule tells anything. -/
def Silent (a : Nat) (x : Instance) (ts : List Turn) : Prop :=
  ∀ n, ts[n]? = some (.message a) → (x.play (ts.take n)).speaks? a = none

section

variable {a : Nat} {x y : Instance} {w : Notice → Bool}

theorem Alike.sight (h : Alike a x y) (w : Notice → Bool) : y.sight w = x.sight w := by
  have hnotices := h.notices
  obtain ⟨ls, f, j, rfl⟩ := h.exists_eq
  unfold Instance.sight
  rw [hnotices]

theorem Silent.tail {t : Turn} {ts : List Turn} (h : Silent a x (t :: ts)) :
    Silent a (x.turn t) ts :=
  fun n hn => h (n + 1) hn

theorem Silent.take {ts : List Turn} (h : Silent a x ts) (n : Nat) : Silent a x (ts.take n) := by
  intro k hk
  rw [List.getElem?_take] at hk
  by_cases hlt : k < n
  · rw [if_pos hlt] at hk
    rw [List.take_take, Nat.min_eq_left (Nat.le_of_lt hlt)]
    exact h k hk
  · rw [if_neg hlt] at hk
    simp at hk

/-- A loop that is silent along a schedule might as well do nothing. -/
theorem Silent.alike {ts : List Turn} (hs : Silent a x ts) (h : Alike a x y) :
    Alike a (x.play ts) (y.play (without a ts)) := by
  induction ts generalizing x y with
  | nil => exact h
  | cons t ts ih =>
    cases ht : t.isOf a with
    | false =>
      have hkept : without a (t :: ts) = t :: without a ts := by
        unfold without
        rw [List.filter_cons, ht]
        rfl
      rw [hkept]
      exact ih hs.tail (turn_alike h ht)
    | true =>
      have hskipped : without a (t :: ts) = without a ts := by
        unfold without
        rw [List.filter_cons, ht]
        rfl
      rw [hskipped]
      refine ih hs.tail ?_
      cases t with
      | call c => simp [Turn.isOf] at ht
      | message i =>
        obtain rfl : i = a := by simpa [Turn.isOf] using ht
        exact message_left h (hs 0 rfl)
      | tick i =>
        obtain rfl : i = a := by simpa [Turn.isOf] using ht
        exact tickLoop_left h
      | stall i =>
        obtain rfl : i = a := by simpa [Turn.isOf] using ht
        exact stall_left h
      | goOn i =>
        obtain rfl : i = a := by simpa [Turn.isOf] using ht
        exact unblock_left h

/-- A notice once told can not be taken back. -/
theorem Isolated.silent {ts : List Turn} (h : Isolated w a x ts)
    (hw : ∀ n m, ts[n]? = some (.message a) → (x.play (ts.take n)).speaks? a = some m → w m) :
    Silent a x ts := by
  intro n hn
  cases hm : (x.play (ts.take n)).speaks? a with
  | none => rfl
  | some m =>
    have hnext : ts.take (n + 1) = ts.take n ++ [.message a] := by
      rw [List.take_add_one, hn]
      rfl
    have hskipped : without a (ts.take (n + 1)) = without a (ts.take n) := by
      unfold without
      rw [hnext, List.filter_append]
      simp [Turn.isOf]
    have hbefore := congrArg Sight.notices (h n)
    have hafter := congrArg Sight.notices (h (n + 1))
    rw [hskipped, ← hbefore, hnext, play_append] at hafter
    -- more was told than before
    have htold := ((message_tells hm).filter w).length_le
    rw [List.filter_cons, if_pos (hw n m hn hm), List.length_cons] at htold
    have hsame := congrArg List.length hafter
    simp only [Instance.sight, play, List.foldl_cons, List.foldl_nil] at hsame htold
    omega

end

/-- What a loop that was closed still does stays hidden from everyone, callers
and observers alike and whatever the timing of all loops, exactly as long as no
message that it takes tells anything.  The same holds of those who hear only of
states and visibility, if no message tells anything else first.  A session that
is not disturbed in this way ends in the requested state if it would without
that loop. -/
theorem isolated_iff_silent {s : BrowserSettings} {ts₀ : List Turn} {x : Instance} {a : Nat}
    {l : Loop} (hx : x = (ofSettings s).play ts₀) (hl : x.loop? a = some l) (hc : l.closed)
    (ts : List Turn) :
    (Isolated (fun _ => true) a x ts ↔ Silent a x ts) ∧
    ((∀ n m, ts[n]? = some (.message a) → (x.play (ts.take n)).speaks? a = some m →
        tellsSession m) →
      (Isolated tellsSession a x ts ↔ Silent a x ts)) ∧
    (Silent a x ts → Steady (x.play (without a ts)).journal →
      ∀ i k, (x.play ts).dispatcher = some i → (x.play ts).loop? i = some k →
        k.phase.isAlive → k.queue = [] →
        (x.play ts).machine.applied = (x.play ts).machine.requested) := by
  have ho : Orderly x.outline := hx ▸ play_orderly ts₀
  have hg : x.outline.loop? a = some (strand l) := by rw [loop?_outline, hl, Option.map_some]
  have hclosed : (strand l).closed = true := hc
  -- a loop that drives a session is open
  have hundriven : x.dispatcher ≠ some a := by
    intro hd
    have hopen := ho.opened a _ hd hg
    simp [hclosed] at hopen
  have hunowned : x.owned ≠ some a := fun hd => hundriven (ho.owned.symm.trans hd)
  have halike : Alike a x x :=
    ⟨rfl, rfl, fun _ _ => rfl, ⟨l, hl, hc⟩, ⟨l, hl, hc⟩, hundriven, hunowned, rfl⟩
  have hisolated (w : Notice → Bool) (hs : Silent a x ts) : Isolated w a x ts := by
    intro n
    exact (((hs.take n).alike halike).sight w).symm
  refine ⟨⟨fun h => h.silent fun _ _ _ _ => rfl, hisolated _⟩,
    fun hw => ⟨fun h => h.silent hw, hisolated _⟩, ?_⟩
  intro hs hsteady i k hi hk halive hempty
  have hend := hs.alike halike
  have hne := hend.ne_of_dispatcher hi
  have hreference : (x.play (without a ts)).outline.loop? i = some (strand k) := by
    rw [loop?_outline, hend.loop i hne, hk, Option.map_some]
  have hchained : Chained (x.play (without a ts)).outline := by
    rw [hx, ← play_append] at hsteady ⊢
    exact play_chained s _ hsteady
  have hlast := hchained.last i _ (hend.dispatcher.trans hi) hreference halive
  have hnone : (strand k).targets = [] := by
    have hq : (strand k).queue = [] := hempty
    unfold Strand.targets
    rw [hq]
    rfl
  rw [hnone] at hlast
  have happlied : (x.play (without a ts)).machine.applied =
      (x.play (without a ts)).machine.requested := Option.some.inj hlast
  rw [hend.machine] at happlied
  exact happlied

/-- A shutdown gives up on a blocked loop that is still to load a URL. -/
def leavetaking : List Turn :=
  [.call (.start {}), .message 0, .message 0, .call .hold, .call (.setUrl "b"), .call .shutdown]

/-- Another session begins, and the blocked loop is let go. -/
def succession : List Turn :=
  [.call (.start {}), .message 1, .call .release, .message 0, .message 1, .message 0]

theorem isolated_iff_silent_succession :
    Isolated (fun _ => true) 0 ((ofSettings ({} : Settings).browser).play leavetaking)
      succession ∧
    (((ofSettings ({} : Settings).browser).play leavetaking).play succession).machine.applied =
      (((ofSettings ({} : Settings).browser).play leavetaking).play succession).machine.requested
    := by
  have hx : (ofSettings ({} : Settings).browser).play leavetaking =
      (ofSettings ({} : Settings).browser).play leavetaking := rfl
  have h := isolated_iff_silent (a := 0) hx rfl rfl succession
  have hsilent :
      Silent 0 ((ofSettings ({} : Settings).browser).play leavetaking) succession := by
    have hnever : ∀ n < 6, (((ofSettings ({} : Settings).browser).play leavetaking).play
        (succession.take n)).speaks? 0 = none := by decide
    exact fun n hn => hnever n (List.getElem?_eq_some_iff.1 hn).1
  have hsteady := (play_exclusive ({} : Settings).browser (leavetaking ++ without 0 succession)
    (by decide)).loyal.steady
  rw [play_append] at hsteady
  exact ⟨h.1.2 hsilent, h.2.2 hsilent hsteady 1 _ rfl rfl rfl rfl⟩

/-- A shutdown gives up on a blocked loop that is still to resume the engine. -/
def abandonment : List Turn :=
  [.call (.start {}), .message 0, .message 0, .call .hold, .call .resume, .call .shutdown]

/-- Another session begins, suspended, and the blocked loop is let go. -/
def reprieve : List Turn :=
  [.call .suspend, .call (.start {}), .message 1, .message 1, .call .release, .message 0]

/-- What the released loop runs reaches the session after its own: observers
hear of a state that nobody asked that session for, and it ends without work in
another state than the requested one. -/
theorem not_isolated_reprieve :
    ((((ofSettings ({} : Settings).browser).play abandonment).loop? 0).any fun l =>
      l.closed && l.phase == .held && l.queue == [.run (.lifecycle .resumed), .stop]) ∧
    (((ofSettings ({} : Settings).browser).play abandonment).play reprieve).sessions = [0, 1] ∧
    ¬Isolated tellsSession 0 ((ofSettings ({} : Settings).browser).play abandonment) reprieve ∧
    ((((ofSettings ({} : Settings).browser).play abandonment).play reprieve).loop? 1).any
      (fun l => l.phase == .idle && l.queue == []) ∧
    (((ofSettings ({} : Settings).browser).play abandonment).play reprieve).machine =
      { requested := .suspended, applied := .resumed } := by
  refine ⟨by decide, by decide, fun h => ?_, by decide, by decide⟩
  exact absurd (h 6) (by decide)

end BrowserHost.Instance
