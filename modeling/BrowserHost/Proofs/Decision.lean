import BrowserHost.Proofs.Beat

/-!
# BrowserHost.Proofs.Decision

The state that callers asked for, as the outcome of what was decided: requests
that were accepted and sessions that began.  Confirmations, reports, hiding, the
end of a session, starts that come to nothing and all that loops do leave it
alone, in whatever order they happen.

* `decisions`: what was decided, read off the journal;
* `Beat.decided`: every beat is no decision, or one that the table allows;
* `state_follows_decisions`: the state is the fold of the table over the
  decisions.
-/

namespace BrowserHost.Instance

open Engine

/-! ## decisions -/

/-- Something that decides the state. -/
inductive Decision
  /-- A request was accepted. -/
  | asked (c : Command)
  /-- A session began. -/
  | began
  deriving DecidableEq, Repr

/-- What a decision makes of the state, if it is allowed: a request as the table
has it; the beginning of a session only picks a state if there is none yet. -/
def Decision.apply (s : State) : Decision → Option State
  | .asked c => (s.transition c).toOption.map (·.next)
  | .began => some (if s = .uninitialized then .suspended else s)

/-- What decisions make of a state, one after the other, if they are allowed. -/
def Decision.applyAll (s : State) (ds : List Decision) : Option State :=
  ds.foldlM Decision.apply s

/-- The decision that an entry records. -/
def Entry.decision? : Entry → Option Decision
  | .requested c _ => some (.asked c)
  | .began .. => some .began
  | _ => none

/-- What was decided, oldest first. -/
def decisions (j : List Entry) : List Decision :=
  (j.filterMap Entry.decision?).reverse

/-- Some call that satisfies `p` can decide so. -/
def Decision.MadeBy (p : Call → Bool) : Decision → Prop
  | .asked cmd => ∃ c, p c ∧ c.command? = some cmd
  | .began => ∃ pl, p (.start pl) ∧ pl.outcome = .ready

/-- A call that decides nothing: no request, and no start that can succeed. -/
def Call.isUndecided : Call → Bool
  | .suspend | .resume | .request _ => false
  | .start pl => pl.outcome != .ready
  | _ => true

theorem decisions_cons (e : Entry) (j : List Entry) :
    decisions (e :: j) = decisions j ++ e.decision?.toList := by
  unfold decisions
  cases h : e.decision? <;> simp [h]

theorem decision?_of_aside {e : Entry} (he : e.isAside) : e.decision? = none := by
  cases e <;> simp_all [Entry.isAside, Entry.decision?]

theorem not_madeBy_isUndecided (d : Decision) : ¬d.MadeBy Call.isUndecided := by
  cases d with
  | asked cmd =>
    rintro ⟨c, hc, hcmd⟩
    cases c <;> simp_all [Call.isUndecided, Call.command?]
  | began =>
    rintro ⟨pl, hpl, ho⟩
    simp [Call.isUndecided, ho] at hpl

/-! ## the table -/

theorem apply_ne_uninitialized {s s' : State} {d : Decision} (h : d.apply s = some s') :
    s' ≠ .uninitialized := by
  cases d with
  | asked c => cases s <;> cases c <;> simp_all [Decision.apply, State.transition, Command.target,
      Except.toOption] <;> simp [← h]
  | began => cases s <;> simp_all [Decision.apply] <;> simp [← h]

/-- Any decision at all leaves no state uninitialized. -/
theorem applyAll_ne_uninitialized {s s' : State} {ds : List Decision} (hds : ds ≠ [])
    (h : Decision.applyAll s ds = some s') : s' ≠ .uninitialized := by
  induction ds generalizing s with
  | nil => exact absurd rfl hds
  | cons d ds ih =>
    obtain ⟨m, hm, hrest⟩ := Option.bind_eq_some_iff.1 h
    cases ds with
    | nil => exact Option.some.inj hrest ▸ apply_ne_uninitialized hm
    | cons d' ds => exact ih (by simp) hrest

/-! ## from one point to a later one -/

/-- What is decided between `x` and `y` makes the state of `y` from that of `x`. -/
def Decided (p : Call → Bool) (x y : Instance) : Prop :=
  ∃ ds, (∀ d ∈ ds, d.MadeBy p) ∧ decisions y.journal = decisions x.journal ++ ds ∧
    Decision.applyAll x.machine.requested ds = some y.machine.requested

section

variable {p : Call → Bool} {x y z : Instance}

theorem Decided.of_eq (hm : y.machine.requested = x.machine.requested)
    (hj : decisions y.journal = decisions x.journal) : Decided p x y :=
  ⟨[], by simp, by rw [hj, List.append_nil], by rw [hm]; rfl⟩

theorem Decided.trans (h : Decided p x y) (h' : Decided p y z) : Decided p x z := by
  obtain ⟨ds, hmade, hj, hs⟩ := h
  obtain ⟨ds', hmade', hj', hs'⟩ := h'
  refine ⟨ds ++ ds', ?_, by rw [hj', hj, List.append_assoc], ?_⟩
  · intro d hd
    exact (List.mem_append.1 hd).elim (hmade d) (hmade' d)
  · unfold Decision.applyAll at hs hs' ⊢
    rw [List.foldlM_append, hs]
    exact hs'

/-- An entry that records no decision. -/
theorem Decided.note {e : Entry} (he : e.decision? = none) : Decided p x (x.note e) :=
  .of_eq rfl (by simp [Instance.note, decisions_cons, he])

theorem machine_submitTo (x : Instance) (i : Nat) (t : Task) :
    (x.submitTo i t).2.machine = x.machine := by
  rw [submitTo_eq]
  split
  · rfl
  · split <;> rfl

theorem decisions_submitTo (x : Instance) (i : Nat) (t : Task) :
    decisions (x.submitTo i t).2.journal = decisions x.journal := by
  rw [submitTo_eq]
  split
  · rfl
  · split
    · simp [Instance.note, setLoop, decisions_cons, Entry.decision?]
    · rfl

theorem machine_submit (x : Instance) (t : Task) : (x.submit t).2.machine = x.machine := by
  unfold submit
  split
  · rfl
  · exact machine_submitTo x _ t

theorem decisions_submit (x : Instance) (t : Task) :
    decisions (x.submit t).2.journal = decisions x.journal := by
  unfold submit
  split
  · rfl
  · exact decisions_submitTo x _ t

theorem submitTo_decided (x : Instance) (i : Nat) (t : Task) :
    Decided p x (x.submitTo i t).2 :=
  .of_eq (congrArg _ (machine_submitTo x i t)) (decisions_submitTo x i t)

theorem closeLoop_decided (x : Instance) (i : Nat) : Decided p x (x.closeLoop i) := by
  unfold closeLoop
  split <;> exact .of_eq rfl rfl

theorem endLoop_decided (x : Instance) (i : Nat) (phase : Phase) :
    Decided p x (x.endLoop i phase) := by
  unfold endLoop
  split
  · exact .of_eq rfl rfl
  · exact .note rfl

/-- A request that was accepted is one that the table allows. -/
theorem request_decided {c : Call} {cmd : Command} {t : Transition} {m : Machine} (hp : p c)
    (hc : c.command? = some cmd) (hm : x.machine.request cmd = .ok (t, m)) :
    Decided p x ({ x with machine := m }.note (.requested cmd t.next)) := by
  refine ⟨[.asked cmd], by simpa using ⟨c, hp, hc⟩, decisions_cons _ _, ?_⟩
  unfold Machine.request at hm
  cases ht : x.machine.requested.transition cmd with
  | error e => simp [ht] at hm
  | ok t' =>
    simp only [ht, Except.ok.injEq, Prod.mk.injEq] at hm
    obtain ⟨rfl, rfl⟩ := hm
    simp [Decision.applyAll, Decision.apply, ht, Except.toOption, Instance.note]

theorem Beat.decided (h : Beat p x y) : Decided p x y := by
  cases h with
  | note he => exact .note (decision?_of_aside he)
  | tell _ => exact .of_eq rfl (by simp [announce, Instance.note, decisions_cons, Entry.decision?])
  | aside _ _ _ _ _ _ _ _ | touch _ _ _ _ _ | attempt | refuse _ _ => exact .of_eq rfl rfl
  | openLoop k =>
    exact .of_eq rfl (by simp [Instance.openLoop, Instance.note, decisions_cons, Entry.decision?])
  | @begin i l pl hp ho _ _ ticker =>
    refine ⟨[.began], by simpa using ⟨pl, hp, ho⟩, decisions_cons _ _, ?_⟩
    cases hs : x.machine.requested <;>
      simp [Decision.applyAll, Decision.apply, openSession, Machine.begin, hs]
  | request hp hc hm => exact request_decided hp hc hm
  | confirm s => exact .of_eq (Machine.confirm_requested _ s) rfl
  | submit _ => exact submitTo_decided x _ _
  | @hide i h _ _ =>
    have hflip : Decided p x (x.setFlag h) :=
      .of_eq rfl (by simp [setFlag, Instance.note, decisions_cons, Entry.decision?])
    exact hflip.trans (submitTo_decided _ i _)
  | @giveUp i _ =>
    have hend : Decided p x (x.endSession i) :=
      .of_eq rfl (by simp [endSession, Instance.note, decisions_cons, Entry.decision?])
    exact hend.trans (closeLoop_decided _ i)
  | take _ _ _ _ =>
    exact .of_eq rfl
      (by simp [Instance.take, Instance.note, setLoop, decisions_cons, Entry.decision?])
  | takeFlag _ _ _ _ =>
    exact .of_eq rfl (by simp [announce, Instance.takeFlag, Instance.note, setLoop, decisions_cons,
      Entry.decision?])
  | stop _ _ _ | crash _ _ => exact endLoop_decided x _ _

theorem Beats.decided (h : Beats p x y) : Decided p x y := by
  induction h with
  | refl => exact .of_eq rfl rfl
  | tail _ hlast ih => exact ih.trans hlast.decided

/-- In a schedule, what is decided makes the state. -/
theorem play_decided {ts : List Turn} (hts : ∀ t ∈ ts, t.every p) (hx : x.Obeys p) :
    Decided p x (x.play ts) :=
  (play_beats hts hx).decided

/-- Where nothing can be decided, the state stays. -/
theorem Decided.unchanged (h : Decided Call.isUndecided x y) :
    y.machine.requested = x.machine.requested ∧ decisions y.journal = decisions x.journal := by
  obtain ⟨ds, hmade, hj, hs⟩ := h
  obtain rfl : ds = [] :=
    List.eq_nil_iff_forall_not_mem.2 fun d hd => not_madeBy_isUndecided d (hmade d hd)
  exact ⟨(Option.some.inj hs).symm, by rw [hj, List.append_nil]⟩

/-! ## calls -/

/-- What a request does: what the table says, or nothing at all. -/
theorem performWith_request (answer : Caller) (x : Instance) {c : Call} {cmd : Command}
    (hc : c.command? = some cmd) :
    match x.machine.requested.transition cmd with
    | .ok t => (performWith answer c x).1 = .done ∧
      (performWith answer c x).2.machine = { x.machine with requested := t.next } ∧
      decisions (performWith answer c x).2.journal = decisions x.journal ++ [.asked cmd]
    | .error e => performWith answer c x = (.fault e, x) := by
  have hperform : performWith answer c x = x.request cmd := by
    cases c <;> simp_all [Call.command?, performWith]
  rw [hperform]
  unfold request Machine.request
  cases ht : x.machine.requested.transition cmd with
  | error e => rfl
  | ok t =>
    have hentry (m : Machine) :
        decisions ({ x with machine := m }.note (.requested cmd t.next)).journal =
          decisions x.journal ++ [.asked cmd] := decisions_cons _ _
    simp only
    split
    · exact ⟨trivial, by rw [machine_submit]; rfl, by rw [decisions_submit, hentry]⟩
    · exact ⟨trivial, rfl, hentry _⟩

/-- A start succeeds exactly if no session is running and the engine is ready;
then its last decision is that the session began. -/
theorem call_start (pl : Plan) (x : Instance) :
    ((call (.start pl) x).1 = .done ↔ x.owned = none ∧ pl.outcome = .ready) ∧
      ((call (.start pl) x).1 = .done →
        (decisions (call (.start pl) x).2.journal).getLast? = some .began) := by
  obtain ⟨answer, hcall⟩ := call_eq (.start pl) x
  rw [hcall]
  simp only [performWith, start, spawn_eq]
  cases howned : x.owned with
  | some i => simp
  | none =>
    cases ho : pl.outcome with
    | ready =>
      have hbegin (y : Instance) (i e : Nat) :
          decisions (y.begin i e).journal = decisions y.journal ++ [.began] := by
        unfold Instance.begin
        simp only [decisions_submitTo]
        exact decisions_cons _ _
      simp [Outcome.fault?, hbegin]
    | refused reason => simp [Outcome.fault?]
    | crashed => simp [Outcome.fault?]

/-- A start that does not succeed decides nothing itself. -/
theorem call_start_unchanged {pl : Plan} (hx : x.Obeys Call.isUndecided)
    (hfail : (call (.start pl) x).1 ≠ .done) :
    (call (.start pl) x).2.machine.requested = x.machine.requested ∧
      decisions (call (.start pl) x).2.journal = decisions x.journal := by
  by_cases ho : pl.outcome = .ready
  · obtain ⟨i, hi⟩ : ∃ i, x.owned = some i := by
      refine Option.ne_none_iff_exists'.1 fun howned => hfail ?_
      exact (call_start pl x).1.2 ⟨howned, ho⟩
    obtain ⟨answer, hcall⟩ := call_eq (.start pl) x
    simp [hcall, performWith, start, hi]
  · have hundecided : Call.every Call.isUndecided (.start pl) := by
      simpa [Call.every, Call.isUndecided] using ho
    exact (call_leads _ _ x hundecided hx).changes.beats.decided.unchanged

end

/-! ## all runs -/

/-- In every run the state is what the requests that were accepted and the
sessions that began make of it, and nothing else bears on it: what is neither an
accepted request nor a successful start leaves the state alone. -/
theorem state_follows_decisions (s : BrowserSettings) (ts : List Turn) :
    let x := (ofSettings s).play ts
    Decision.applyAll .uninitialized (decisions x.journal) = some x.machine.requested ∧
      (.began ∈ decisions x.journal → x.machine.requested ≠ .uninitialized) ∧
      (∀ answer c cmd, Call.command? c = some cmd →
        match x.machine.requested.transition cmd with
        | .ok t => (performWith answer c x).1 = .done ∧
          (performWith answer c x).2.machine = { x.machine with requested := t.next } ∧
          decisions (performWith answer c x).2.journal = decisions x.journal ++ [.asked cmd]
        | .error e => performWith answer c x = (.fault e, x)) ∧
      (∀ pl, ((call (.start pl) x).1 = .done ↔ x.owned = none ∧ pl.outcome = .ready) ∧
        ((call (.start pl) x).1 = .done →
          (decisions (call (.start pl) x).2.journal).getLast? = some .began) ∧
        ((call (.start pl) x).1 ≠ .done → x.Obeys Call.isUndecided →
          (call (.start pl) x).2.machine.requested = x.machine.requested ∧
            decisions (call (.start pl) x).2.journal = decisions x.journal)) ∧
      ∀ us, (∀ t ∈ us, Turn.every Call.isUndecided t) → x.Obeys Call.isUndecided →
        (x.play us).machine.requested = x.machine.requested ∧
          decisions (x.play us).journal = decisions x.journal := by
  intro x
  obtain ⟨ds, -, hj, hs⟩ : Decided (fun _ => true) (ofSettings s) x :=
    play_decided (fun t _ => Turn.every_true t) (obeys_ofSettings _ s)
  have hall : decisions x.journal = ds := hj
  refine ⟨hall ▸ hs, fun hbegan => ?_, fun answer c cmd hc => performWith_request answer x hc,
    fun pl => ?_, fun us hus hx => (play_decided hus hx).unchanged⟩
  · exact applyAll_ne_uninitialized (List.ne_nil_of_mem (hall ▸ hbegan)) hs
  · obtain ⟨hdone, hbegan⟩ := call_start pl x
    exact ⟨hdone, hbegan, fun hfail hx => call_start_unchanged hx hfail⟩

/-- A request that is refused, a start that fails and the end of a session decide
nothing. -/
example :
    let x := (ofSettings ({} : Settings).browser).play
      [.call .suspend, .call (.start {}), .call .resume, .call .resume, .call .shutdown,
        .call (.start { outcome := .crashed }), .call (.start {})]
    decisions x.journal = [.asked .suspend, .began, .asked .resume, .began] ∧
      x.machine.requested = .resumed := by
  decide

end BrowserHost.Instance
