import BrowserHost.Proofs.Confirmation

/-!
# BrowserHost.Proofs.Visibility

What the engine is told about its view.  A lifecycle task reads the hidden flag
when it runs, a visibility task carries the flag of the moment when it was
queued and reads the applied state when it runs.  So the part of a view that
depends on the state is right after every task, and the part that depends on
the flag is right once the last visibility task has run.

* `Recorded`: a queue holds nothing that the journal does not mention;
* `Seen`: the view of the latest session's loop, and the flags in its queue;
* `view_follows_state`: what the engine of a run shows.
-/

namespace BrowserHost.Instance

open Engine Outline

/-- Whether a loop accepted work on the view that a caller submitted. -/
def Entry.isViewWork : Entry → Bool
  | .queued _ (.work (.view _)) => true
  | _ => false

section

variable {p : Call → Bool} {o o' : Outline} {i : Nat} {g : Strand}

/-! ## queues hold what was accepted -/

/-- Every task in a queue was accepted by the loop. -/
def Recorded (o : Outline) : Prop :=
  ∀ i g t, o.loop? i = some g → .run t ∈ g.queue → .queued g.engine t ∈ o.journal

theorem Recorded.of_queue (h : Recorded o) (hj : o.journal <:+ o'.journal)
    (hl : ∀ i g', o'.loop? i = some g' → ∀ t, .run t ∈ g'.queue →
      ∃ g, o.loop? i = some g ∧ g.engine = g'.engine ∧ .run t ∈ g.queue) : Recorded o' := by
  intro i g' t hg' ht
  obtain ⟨g, hg, he, hmem⟩ := hl i g' hg' t ht
  rw [← he]
  exact hj.subset (h i g t hg hmem)

theorem Recorded.setLoop (h : Recorded o) (hg : o.loop? i = some g) (g' : Strand)
    (he : g'.engine = g.engine) (hq : ∀ t, .run t ∈ g'.queue → .run t ∈ g.queue) :
    Recorded (o.setLoop i g') := by
  refine h.of_queue List.suffix_rfl fun j k hk t ht => ?_
  rcases loop?_setLoop_cases hg hk with ⟨rfl, rfl⟩ | ⟨-, hk⟩
  · exact ⟨g, hg, he.symm, hq t ht⟩
  · exact ⟨k, hk, rfl, ht⟩

theorem Recorded.note (h : Recorded o) (e : Entry) : Recorded (o.note e) :=
  h.of_queue (List.suffix_cons _ _) fun _ g hg _ ht => ⟨g, hg, rfl, ht⟩

theorem Recorded.submitTo (h : Recorded o) (i : Nat) (t : Task) : Recorded (o.submitTo i t) := by
  rcases submitTo_cases o i t with ⟨heq, -⟩ | ⟨g, hg, -, heq⟩
  · rw [heq]
    exact h
  · rw [heq]
    intro j k u hk hu
    rcases loop?_setLoop_cases hg hk with ⟨rfl, rfl⟩ | ⟨-, hk⟩
    · simp only [Strand.push, List.mem_append, List.mem_singleton, Message.run.injEq] at hu
      rcases hu with hu | rfl
      · exact List.mem_cons_of_mem _ (h i g u hg hu)
      · exact List.mem_cons_self
    · exact List.mem_cons_of_mem _ (h j k u hk hu)

theorem Recorded.submit (h : Recorded o) (t : Task) : Recorded (o.submit t) := by
  unfold Outline.submit
  split
  · exact h
  · exact h.submitTo _ t

theorem Recorded.take (h : Recorded o) (hg : o.loop? i = some g) {t : Task} {rest : List Message}
    (hq : g.queue = .run t :: rest) (v : View) : Recorded (o.take i g t rest v) := by
  refine (h.setLoop hg { g with queue := rest, view := v } rfl fun u hu => ?_).note _
  rw [hq]
  exact List.mem_cons_of_mem _ hu

theorem Recorded.finish (h : Recorded o) (hg : o.loop? i = some g) :
    Recorded (o.setLoop i g.finish) :=
  h.setLoop hg g.finish rfl (by simp [Strand.finish])

theorem Shift.recorded (h : Shift p o o') (ho : Placed o) (hr : Recorded o) : Recorded o' := by
  cases h with
  | notify _ => exact hr.note _
  | @request c t m hm =>
    have hnote : Recorded (Outline.note { o with machine := m } (.requested c t.next)) :=
      hr.of_queue (List.suffix_cons _ _) fun _ g hg _ ht => ⟨g, hg, rfl, ht⟩
    unfold Outline.grant
    split
    · exact hnote.submit _
    · exact hnote
  | @ready i g url hg hb ha =>
    have hset := hr.setLoop hg { g with building := false } rfl fun _ ht => ht
    have hopen : Recorded (o.openSession i g) :=
      hset.of_queue (List.suffix_cons _ _) fun _ g hg _ ht => ⟨g, hg, rfl, ht⟩
    exact (hopen.submitTo _ _).submitTo _ _
  | @giveUp i e hi =>
    obtain ⟨g, hg, -, heq⟩ := ho.giveUp_eq hi e
    have hnote : Recorded (Outline.note { o with owned := none, dispatcher := none } (.ended e)) :=
      hr.of_queue (List.suffix_cons _ _) fun _ g hg _ ht => ⟨g, hg, rfl, ht⟩
    rw [heq]
    refine hnote.setLoop hg g.close (Strand.engine_close g) fun t ht => ?_
    unfold Strand.close at ht
    split at ht
    · exact ht
    · simp only at ht
      split at ht
      · simpa using ht
      · exact ht
  | finish hg hb => exact (hr.finish hg).note _
  | @lifecycle i k g s rest hg hb hq =>
    have htake := (hr.take hg hq (View.of s o.hidden)).note (.viewed g.engine (View.of s o.hidden))
    unfold Outline.settleOn
    split
    · exact htake.of_queue (List.suffix_cons _ _) fun _ g hg _ ht => ⟨g, hg, rfl, ht⟩
    · exact htake.of_queue List.suffix_rfl fun _ g hg _ ht => ⟨g, hg, rfl, ht⟩

theorem Step.recorded (h : Step p o o') (ho : Placed o) (hr : Recorded o) : Recorded o' := by
  cases h with
  | shift h => exact h.recorded ho hr
  | glance h =>
    cases h with
    | @hide i v hi =>
      have hnote : Recorded (Outline.note { o with hidden := v } (.flipped v)) :=
        hr.of_queue (List.suffix_cons _ _) fun _ g hg _ ht => ⟨g, hg, rfl, ht⟩
      exact hnote.submitTo _ _
    | view hg hb hq => exact hr.take hg hq _
    | visibility hg hb hq => exact hr.take hg hq _
  | quiet he => exact hr.note _
  | attempt => exact hr.of_queue List.suffix_rfl fun _ g hg _ ht => ⟨g, hg, rfl, ht⟩
  | openLoop =>
    refine hr.of_queue List.suffix_rfl fun j k hk t ht => ?_
    rcases loop?_append_cases hk with ⟨-, rfl⟩ | ⟨-, hk⟩
    · simp at ht
    · exact ⟨k, hk, rfl, ht⟩
  | push ht => exact hr.submitTo _ _
  | fail hg hb => exact hr.finish hg
  | take hg hb hq ht => exact hr.take hg hq _

/-! ## the view of the latest session -/

/-- The view of the latest session's loop shows the applied state; and it shows
the hidden flag unless the queue still holds that flag. -/
structure Seen (o : Outline) : Prop where
  shown : ∀ i g, o.sessions.getLast? = some i → o.loop? i = some g → isDriven o.journal →
    g.view.inWindow = (o.machine.applied == .resumed)
  flagged : ∀ i g h, o.dispatcher = some i → o.loop? i = some g → g.alive →
    g.flags.getLast? = some h → h = o.hidden
  settled : ∀ i g, o.dispatcher = some i → o.loop? i = some g → g.alive → g.flags = [] →
    isDriven o.journal → g.view.visible = !o.hidden
  undriven : ∀ i g, o.dispatcher = some i → o.loop? i = some g → g.alive →
    isDriven o.journal = false → g.targets ≠ []

theorem Calm.seen (h : Calm True o o') (ho : Orderly o) (hs : Seen o) : Seen o' := by
  -- the loop of the latest session is what it was, as far as it counts
  have hold (i : Nat) (g' : Strand) (hi : o'.sessions.getLast? = some i)
      (hg' : o'.loop? i = some g') : ∃ g, o.loop? i = some g ∧ g'.targets = g.targets ∧
        g'.alive = g.alive ∧ g'.flags = g.flags ∧ g'.view = g.view := by
    rw [h.sessions] at hi
    obtain ⟨g, hg, -, ht, ha, hv⟩ := h.loop i g' (List.mem_of_getLast? hi) hg'
    exact ⟨g, hg, ht, ha, (hv trivial).1, (hv trivial).2⟩
  have hlast (i : Nat) (hd : o'.dispatcher = some i) : o'.sessions.getLast? = some i := by
    rw [h.sessions]
    exact ho.current i (h.dispatcher ▸ hd)
  constructor
  · intro i g' hi hg' hdriven
    obtain ⟨g, hg, -, -, -, hv⟩ := hold i g' hi hg'
    rw [hv, h.machine]
    exact hs.shown i g (h.sessions ▸ hi) hg (h.agree.isDriven ▸ hdriven)
  · intro i g' v hi hg' ha hf
    obtain ⟨g, hg, -, ha', hf', -⟩ := hold i g' (hlast i hi) hg'
    rw [h.hidden trivial]
    exact hs.flagged i g v (h.dispatcher ▸ hi) hg (ha' ▸ ha) (hf' ▸ hf)
  · intro i g' hi hg' ha hf hdriven
    obtain ⟨g, hg, -, ha', hf', hv⟩ := hold i g' (hlast i hi) hg'
    rw [hv, h.hidden trivial]
    exact hs.settled i g (h.dispatcher ▸ hi) hg (ha' ▸ ha) (hf' ▸ hf)
      (h.agree.isDriven ▸ hdriven)
  · intro i g' hi hg' ha hdriven
    obtain ⟨g, hg, ht, ha', -, -⟩ := hold i g' (hlast i hi) hg'
    rw [ht]
    exact hs.undriven i g (h.dispatcher ▸ hi) hg (ha' ▸ ha) (h.agree.isDriven ▸ hdriven)

theorem isDriven_grant {c : Command} {t : Transition} {m : Machine} :
    isDriven (o.grant c t m).journal = isDriven o.journal := by
  rcases @grant_journal o c t m with hj | ⟨e, hj⟩
  · rw [hj]
    rfl
  · rw [hj]
    rfl

theorem Seen.hide {h : Bool} (hs : Seen o) (ho : Orderly o) (hi : o.dispatcher = some i) :
    Seen ((Outline.note { o with hidden := h } (.flipped h)).submitTo i (.visibility h)) := by
  have hquiet : Agree (.flipped h :: o.journal) o.journal := agree_of_quiet rfl _
  rcases submitTo_cases (Outline.note { o with hidden := h } (.flipped h)) i (.visibility h) with
    ⟨heq, hrefused⟩ | ⟨g, hg, ha, heq⟩
  · -- a loop that takes no flag is not alive
    rw [heq]
    have hdead (g : Strand) (hg : o.loop? i = some g) (ha : g.alive) : False := by
      have hopen := ho.opened i g hi hg
      have haccepts := hrefused g hg
      simp [Strand.accepts, hopen, ha] at haccepts
    refine ⟨fun j k hj hk hd => hs.shown j k hj hk (hquiet.isDriven ▸ hd), ?_, ?_, ?_⟩
    · intro j k v hj hk halive _
      obtain rfl := Option.some.inj (hi.symm.trans hj)
      exact (hdead k hk halive).elim
    · intro j k hj hk halive _ _
      obtain rfl := Option.some.inj (hi.symm.trans hj)
      exact (hdead k hk halive).elim
    · intro j k hj hk halive _
      obtain rfl := Option.some.inj (hi.symm.trans hj)
      exact (hdead k hk halive).elim
  · rw [heq]
    have hg' : o.loop? i = some g := hg
    have hmine (j : Nat) (k : Strand) (hj : o.dispatcher = some j)
        (hk : ((Outline.note { o with hidden := h } (.flipped h)).setLoop i
          (g.push (.visibility h))).loop? j = some k) : k = g.push (.visibility h) := by
      rcases loop?_setLoop_cases hg hk with ⟨-, rfl⟩ | ⟨hij, -⟩
      · rfl
      · exact absurd (Option.some.inj (hi.symm.trans hj)) hij
    constructor
    · intro j k hj hk hd
      rcases loop?_setLoop_cases hg hk with ⟨rfl, rfl⟩ | ⟨-, hk⟩
      · exact hs.shown i g hj hg' (hquiet.isDriven ▸ hd)
      · exact hs.shown j k hj hk (hquiet.isDriven ▸ hd)
    · intro j k v hj hk _ hf
      rw [hmine j k hj hk, Strand.flags_push] at hf
      have hlast : some h = some v := (List.getLast?_concat (l := g.flags)).symm.trans hf
      exact (Option.some.inj hlast).symm
    · intro j k hj hk _ hf
      rw [hmine j k hj hk, Strand.flags_push] at hf
      simp [flag?] at hf
    · intro j k hj hk halive hd
      rw [hmine j k hj hk] at halive ⊢
      rw [Strand.targets_push]
      obtain rfl := Option.some.inj (hi.symm.trans hj)
      have hne := hs.undriven i g hi hg' halive (hquiet.isDriven ▸ hd)
      simpa [target?] using hne

theorem Seen.visibility {h : Bool} {rest : List Message} (hs : Seen o)
    (hg : o.loop? i = some g) (hq : g.queue = .run (.visibility h) :: rest) :
    Seen (o.take i g (.visibility h) rest (View.of o.machine.applied h)) := by
  have hflags : g.flags = h :: rest.filterMap flag? := flags_of_queue hq
  have htargets : g.targets = rest.filterMap target? := targets_of_queue hq
  constructor
  · intro j k hj hk hd
    rcases loop?_setLoop_cases hg hk with ⟨rfl, rfl⟩ | ⟨-, hk⟩
    · rfl
    · exact hs.shown j k hj hk hd
  · intro j k v hj hk ha hf
    rcases loop?_setLoop_cases hg hk with ⟨rfl, rfl⟩ | ⟨-, hk⟩
    · refine hs.flagged i g v hj hg ha ?_
      have hf' : (rest.filterMap flag?).getLast? = some v := hf
      rw [hflags, List.getLast?_cons, hf']
      rfl
    · exact hs.flagged j k v hj hk ha hf
  · intro j k hj hk ha hf hd
    rcases loop?_setLoop_cases hg hk with ⟨rfl, rfl⟩ | ⟨-, hk⟩
    · -- the last flag in the queue is the flag itself
      have hf' : rest.filterMap flag? = [] := hf
      rw [hf'] at hflags
      have hsame : h = o.hidden := hs.flagged i g h hj hg ha (by rw [hflags]; rfl)
      rw [hsame]
      rfl
    · exact hs.settled j k hj hk ha hf hd
  · intro j k hj hk ha hd
    rcases loop?_setLoop_cases hg hk with ⟨rfl, rfl⟩ | ⟨-, hk⟩
    · have hne := hs.undriven i g hj hg ha hd
      rw [htargets] at hne
      exact hne
    · exact hs.undriven j k hj hk ha hd

theorem Glance.seen (h : Glance o o') (ho : Orderly o) (hr : Recorded o)
    (hraw : ∀ e ∈ o'.journal, e.isViewWork = false) (hs : Seen o) : Seen o' := by
  cases h with
  | hide hi => exact hs.hide ho hi
  | @view i g v rest hg hb hq =>
    have hmem := hr i g (.work (.view v)) hg (by rw [hq]; exact List.mem_cons_self)
    have hnot := hraw _ (List.mem_cons_of_mem _ hmem)
    simp [Entry.isViewWork] at hnot
  | visibility hg hb hq => exact hs.visibility hg hq

theorem Seen.begin {url : String} (ho : Orderly o) (hg : o.loop? i = some g)
    (hb : g.building) (ha : g.alive) : Seen (o.begin i g url) := by
  have hc := (ho.building i g hg hb).1
  obtain ⟨-, -, hdispatcher⟩ := begin_fields hg hc ha url
  have hfresh : isDriven (o.begin i g url).journal = false := by
    rw [begin_eq hg hc ha url]
    rfl
  constructor
  · intro j k hj hk hd
    simp [hfresh] at hd
  · intro j k v hj hk _ hf
    obtain rfl := Option.some.inj (hdispatcher.symm.trans hj)
    rw [(begin_loop ho.toPlaced hg hb ha hk).2] at hf
    simp at hf
  · intro j k hj hk _ _ hd
    simp [hfresh] at hd
  · intro j k hj hk _ _
    obtain rfl := Option.some.inj (hdispatcher.symm.trans hj)
    rw [(begin_loop ho.toPlaced hg hb ha hk).1]
    simp

theorem Seen.lifecycle {k : Nat} {s : State} {rest : List Message} (hs : Seen o) (ho : Orderly o)
    (hc : Chained o) (hg : o.loop? i = some g) (hq : g.queue = .run (.lifecycle s) :: rest)
    (hl : latest o.journal = some g.engine ∨ effective o.journal = s) :
    Seen (((o.take i g (.lifecycle s) rest (View.of s o.hidden)).note
      (.viewed g.engine (View.of s o.hidden))).settleOn k s) := by
  rw [lifecycle_eq]
  obtain ⟨-, -, -, -, hdriven, -⟩ := lifecycle_readings o k g.engine s (View.of s o.hidden) rfl
  have hflags : g.flags = rest.filterMap flag? := flags_of_queue hq
  -- the task of another session changes nothing
  have hcases (j : Nat) (m : Strand) (hj : o.sessions.getLast? = some j)
      (hm : (o.loops.set i { g with queue := rest, view := View.of s o.hidden })[j]? = some m) :
      (i = j ∧ m = { g with queue := rest, view := View.of s o.hidden } ∧
        latest o.journal = some g.engine) ∨
      (o.loop? j = some m ∧ o.machine.applied = s ∧ latest o.journal ≠ some g.engine) := by
    rcases loop?_setLoop_cases hg hm with ⟨rfl, hmine⟩ | ⟨hij, hm⟩
    · exact .inl ⟨rfl, hmine, ho.latest i g hj hg⟩
    · have hlatest : latest o.journal ≠ some g.engine := by
        intro heq
        have hengine := (ho.latest j m hj hm).symm.trans heq
        exact hij (ho.distinct i j g m hg hm (Option.some.inj hengine).symm)
      exact .inr ⟨hm, by rw [hc.effective, hl.resolve_left hlatest], hlatest⟩
  constructor
  · intro j m hj hm hd
    rcases hcases j m hj hm with ⟨rfl, rfl, -⟩ | ⟨hm, happlied, hlatest⟩
    · rfl
    · have hd' : isDriven o.journal := by
        rw [hdriven] at hd
        simpa [hlatest] using hd
      have hshown := hs.shown j m hj hm hd'
      rw [happlied] at hshown
      exact hshown
  · intro j m v hj hm ha hf
    rcases hcases j m (ho.current j hj) hm with ⟨rfl, rfl, -⟩ | ⟨hm, -, -⟩
    · refine hs.flagged i g v hj hg ha ?_
      rw [hflags]
      exact hf
    · exact hs.flagged j m v hj hm ha hf
  · intro j m hj hm ha hf hd
    rcases hcases j m (ho.current j hj) hm with ⟨rfl, rfl, -⟩ | ⟨hm, -, hlatest⟩
    · rfl
    · have hd' : isDriven o.journal := by
        rw [hdriven] at hd
        simpa [hlatest] using hd
      exact hs.settled j m hj hm ha hf hd'
  · intro j m hj hm ha hd
    rw [hdriven, Bool.or_eq_false_iff] at hd
    rcases hcases j m (ho.current j hj) hm with ⟨rfl, rfl, hlatest⟩ | ⟨hm, -, -⟩
    · simp [hlatest] at hd
    · exact hs.undriven j m hj hm ha hd.2

/-- A granted request leaves the views and the flags of all loops alone. -/
theorem Seen.grant {c : Command} {t : Transition} {m : Machine} (hs : Seen o) (ho : Orderly o)
    (hm : o.machine.request c = .ok (t, m)) : Seen (o.grant c t m) := by
  obtain ⟨rfl, -, -, -⟩ := Machine.request_eq_ok hm
  obtain ⟨hmachine, hhidden, hsessions, hdispatcher⟩ :=
    @grant_fields o c t { o.machine with requested := t.next }
  have hold (j : Nat) (k : Strand)
      (hk : (o.grant c t { o.machine with requested := t.next }).loop? j = some k) :
      ∃ g, o.loop? j = some g ∧ k.flags = g.flags ∧ k.view = g.view ∧ k.alive = g.alive ∧
        g.targets <+: k.targets := by
    obtain ⟨g, hg, ⟨-, -, rfl⟩ | ⟨rfl, -⟩⟩ := grant_cases ho.toPlaced hm hk
    · rw [Strand.flags_push, Strand.targets_push]
      exact ⟨g, hg, List.append_nil _, rfl, rfl, List.prefix_append _ _⟩
    · exact ⟨k, hg, rfl, rfl, rfl, List.prefix_rfl⟩
  constructor
  · intro j k hj hk hd
    obtain ⟨g, hg, -, hv, -, -⟩ := hold j k hk
    rw [hv, hmachine]
    exact hs.shown j g (hsessions ▸ hj) hg (isDriven_grant ▸ hd)
  · intro j k v hj hk ha hf
    obtain ⟨g, hg, hf', -, ha', -⟩ := hold j k hk
    rw [hhidden]
    exact hs.flagged j g v (hdispatcher ▸ hj) hg (ha' ▸ ha) (hf' ▸ hf)
  · intro j k hj hk ha hf hd
    obtain ⟨g, hg, hf', hv, ha', -⟩ := hold j k hk
    rw [hv, hhidden]
    exact hs.settled j g (hdispatcher ▸ hj) hg (ha' ▸ ha) (hf' ▸ hf) (isDriven_grant ▸ hd)
  · intro j k hj hk ha hd
    obtain ⟨g, hg, -, -, ha', ht⟩ := hold j k hk
    have hne := hs.undriven j g (hdispatcher ▸ hj) hg (ha' ▸ ha) (isDriven_grant ▸ hd)
    intro hnone
    rw [hnone] at ht
    exact hne (List.prefix_nil.1 ht)

/-- A loop that has ended keeps the view that it had. -/
theorem Seen.finish (hs : Seen o) (hg : o.loop? i = some g) (e : Nat) :
    Seen ((o.setLoop i g.finish).note (.dropped e)) := by
  constructor
  · intro j k hj hk hdriven
    rcases loop?_setLoop_cases hg hk with ⟨rfl, rfl⟩ | ⟨-, hk⟩
    · exact hs.shown i g hj hg hdriven
    · exact hs.shown j k hj hk hdriven
  · intro j k v hj hk ha hf
    rcases loop?_setLoop_cases hg hk with ⟨rfl, rfl⟩ | ⟨-, hk⟩
    · simp [Strand.finish] at ha
    · exact hs.flagged j k v hj hk ha hf
  · intro j k hj hk ha hf hdriven
    rcases loop?_setLoop_cases hg hk with ⟨rfl, rfl⟩ | ⟨-, hk⟩
    · simp [Strand.finish] at ha
    · exact hs.settled j k hj hk ha hf hdriven
  · intro j k hj hk ha hdriven
    rcases loop?_setLoop_cases hg hk with ⟨rfl, rfl⟩ | ⟨-, hk⟩
    · simp [Strand.finish] at ha
    · exact hs.undriven j k hj hk ha hdriven

theorem Shift.seen (h : Shift p o o') (ho : Orderly o) (hl : Loyal o'.journal) (hc : Chained o)
    (hs : Seen o) : Seen o' := by
  cases h with
  | notify _ => exact ⟨hs.shown, hs.flagged, hs.settled, hs.undriven⟩
  | request hm => exact hs.grant ho hm
  | ready url hg hb ha => exact Seen.begin ho hg hb ha
  | @giveUp i e hi =>
    obtain ⟨g, hg, hlast, heq⟩ := ho.giveUp_eq hi e
    rw [heq]
    refine ⟨fun j k hj hk hdriven => ?_, by simp [Outline.setLoop, Outline.note],
      by simp [Outline.setLoop, Outline.note], by simp [Outline.setLoop, Outline.note]⟩
    rcases loop?_setLoop_cases (by exact hg) hk with ⟨rfl, rfl⟩ | ⟨-, hk⟩
    · rw [Strand.view_close]
      exact hs.shown i g hlast hg hdriven
    · exact hs.shown j k hj hk hdriven
  | finish hg hb => exact hs.finish hg _
  | lifecycle hg hb hq => exact hs.lifecycle ho hc hg hq (lifecycle_loyal hl)

/-! ## runs -/

/-- The view of the latest session follows the state, unless work on the view
was queued besides. -/
theorem play_seen (s : BrowserSettings) (ts : List Turn)
    (hl : Loyal ((ofSettings s).play ts).journal)
    (hraw : ∀ e ∈ ((ofSettings s).play ts).journal, e.isViewWork = false) :
    Seen ((ofSettings s).play ts).outline := by
  let Clean (o : Outline) : Prop := Loyal o.journal ∧ ∀ e ∈ o.journal, e.isViewWork = false
  have hback (o o' : Outline) (hj : o.journal <:+ o'.journal) (h : Clean o') : Clean o :=
    ⟨h.1.of_suffix hj, fun e hmem => h.2 e (hj.subset hmem)⟩
  have h : Orderly ((ofSettings s).play ts).outline ∧ Recorded ((ofSettings s).play ts).outline ∧
      (Clean ((ofSettings s).play ts).outline → Chained ((ofSettings s).play ts).outline ∧
        Seen ((ofSettings s).play ts).outline) := by
    refine outline_induction
      (P := fun o => Orderly o ∧ Recorded o ∧ (Clean o → Chained o ∧ Seen o))
      ⟨orderly_ofSettings s, fun i g t hg => ?_, fun _ => ⟨?_, ?_⟩⟩ (fun o o' hstep ho => ?_)
      fun t _ => Turn.every_true t
    · have hnone : (ofSettings s).outline.loop? i = none := rfl
      simp [hnone] at hg
    · refine ⟨fun i g hi => ?_, fun i g hi => ?_, rfl⟩ <;> simp [outline, ofSettings] at hi
    · refine ⟨fun i g hi => ?_, fun i g v hi => ?_, fun i g hi => ?_, fun i g hi => ?_⟩ <;>
        simp [outline, ofSettings] at hi
    · obtain ⟨horderly, hrecorded, hrest⟩ := ho
      refine ⟨hstep.orderly horderly, hstep.recorded horderly.toPlaced hrecorded, fun hclean => ?_⟩
      obtain ⟨hchained, hseen⟩ := hrest (hback o o' (hstep.journal horderly) hclean)
      rcases hstep.kinds horderly.toPlaced with h | h | h
      · exact ⟨h.weaken.chained horderly hchained, h.seen horderly hseen⟩
      · exact ⟨h.calm.chained horderly hchained, h.seen horderly hrecorded hclean.2 hseen⟩
      · exact ⟨h.chained horderly hclean.1.steady fun _ => hchained,
          h.seen horderly hclean.1 hchained hseen⟩
  exact (h.2.2 ⟨hl, hraw⟩).2

end

/-! ## what the engine shows -/

/-- In every run whose sessions begin when no earlier loop has lifecycle tasks
left, and in which no work on the view was queued by callers: once the latest
session has run a lifecycle task its view is in the window exactly while the
applied state is resumed; and whenever the session is running, its loop is alive
and the queue is empty, the view is the one of the requested state and the
hidden flag. -/
theorem view_follows_state (s : BrowserSettings) (ts : List Turn)
    (hfresh : FreshStarts ((ofSettings s).play ts).journal)
    (hraw : ∀ e ∈ ((ofSettings s).play ts).journal, e.isViewWork = false) :
    ∀ i l, ((ofSettings s).play ts).sessions.getLast? = some i →
      ((ofSettings s).play ts).loop? i = some l →
      (isDriven ((ofSettings s).play ts).journal →
        (l.view.inWindow ↔ ((ofSettings s).play ts).machine.applied = .resumed)) ∧
      (((ofSettings s).play ts).dispatcher = some i → l.phase.isAlive → l.queue = [] →
        l.view = View.of ((ofSettings s).play ts).machine.requested
          ((ofSettings s).play ts).hidden) := by
  have ho := play_orderly (s := s) ts
  have hloyal := (play_exclusive s ts hfresh).loyal
  have hchained := play_chained s ts hloyal.steady
  have hseen := play_seen s ts hloyal hraw
  intro i l hi hl
  generalize (ofSettings s).play ts = x at *
  have hg : x.outline.loop? i = some (strand l) := by rw [loop?_outline, hl, Option.map_some]
  constructor
  · intro hdriven
    have hshown : l.view.inWindow = (x.machine.applied == .resumed) :=
      hseen.shown i _ hi hg hdriven
    rw [hshown, beq_iff_eq]
  · intro hd halive hempty
    have hq : (strand l).queue = [] := hempty
    have htargets : (strand l).targets = [] := by
      unfold Strand.targets
      rw [hq]
      rfl
    have hflags : (strand l).flags = [] := by
      unfold Strand.flags
      rw [hq]
      rfl
    -- a session that has run no lifecycle task still has one to run
    have hdriven : isDriven x.journal := by
      by_contra hnot
      exact hseen.undriven i _ hd hg halive (Bool.eq_false_iff.2 hnot) htargets
    have hlast := hchained.last i _ hd hg halive
    rw [htargets] at hlast
    have happlied : x.machine.applied = x.machine.requested := Option.some.inj hlast
    have hshown : l.view.inWindow = (x.machine.applied == .resumed) :=
      hseen.shown i _ hi hg hdriven
    have hvisible : l.view.visible = !x.hidden := hseen.settled i _ hd hg halive hflags hdriven
    rw [happlied] at hshown
    unfold View.of
    rw [← hvisible, ← hshown]

/-- A session that is hidden, resumed, shown and hidden again while its loop is
blocked.  The lifecycle tasks find the last flag, the visibility tasks bring
their own. -/
def blinking : List Turn :=
  [.call (.start {}), .stall 0, .call (.hide true), .call .resume, .call (.hide false),
    .call .suspend, .call .resume, .call (.hide true), .goOn 0, .message 0, .message 0,
    .message 0, .message 0, .message 0, .message 0, .message 0, .message 0]

theorem view_follows_state_blinking :
    let x := (ofSettings ({} : Settings).browser).play blinking
    ∀ l, x.loop? 0 = some l → l.view = View.of .resumed true ∧
      (l.view.inWindow ↔ x.machine.applied = .resumed) := by
  intro x l hl
  have h := view_follows_state ({} : Settings).browser blinking (by decide) (by decide) 0 l rfl hl
  have hqueue : l.queue = [] := by
    obtain rfl := Option.some.inj hl
    rfl
  have halive : l.phase.isAlive := by
    obtain rfl := Option.some.inj hl
    rfl
  exact ⟨h.2 rfl halive hqueue, h.1 (by decide)⟩

end BrowserHost.Instance
