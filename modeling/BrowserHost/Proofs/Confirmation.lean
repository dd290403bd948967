import BrowserHost.Proofs.Order

/-!
# BrowserHost.Proofs.Confirmation

What observers are told about the state.  Requests are decided at once and run
ahead of the engine; what links the two is the queue of the session's loop.
The invariant is that the states told so far and the states still in the queue
make up the agenda of the session, that neighbours on the agenda differ, and
that it ends in the requested state.

* `Exclusive`: sessions that begin on fresh ground are the only ones that
  change the state;
* `Chained`: the applied state, the queue and the requested state;
* `Recounted`: what was told, the queue and the agenda;
* `notifications_follow_agenda`: what observers of a run hear.
-/

namespace BrowserHost.Instance

open Engine Outline

/-! ## what shifts do to loops and journal -/

section

variable {p : Call → Bool} {o o' : Outline} {i : Nat} {g : Strand}

theorem loop?_submitTo (o : Outline) (i : Nat) (t : Task) (j : Nat) :
    (o.submitTo i t).loop? j =
      if i = j then (o.loop? j).map fun g => if g.accepts then g.push t else g else o.loop? j := by
  unfold Outline.submitTo
  cases hg : o.loop? i with
  | none =>
    by_cases hij : i = j
    · subst hij
      simp [hg]
    · simp [hij]
  | some g =>
    by_cases ha : g.accepts
    · have hset := Outline.loop?_setLoop hg (g.push t) j
      simp only [ha, if_true]
      by_cases hij : i = j
      · subst hij
        rw [if_pos rfl] at hset
        simp only [hg, Option.map_some, ha, if_true]
        exact hset
      · rw [if_neg hij] at hset
        rw [if_neg hij]
        exact hset
    · by_cases hij : i = j
      · subst hij
        simp [hg, ha]
      · simp [ha, hij]

/-- A session begins: its loop is to load the URL and then to apply the state
that the machine begins in. -/
theorem begin_eq (hg : o.loop? i = some g) (hc : g.closed = false) (ha : g.alive) (url : String) :
    o.begin i g url =
      { o with
        machine := o.machine.begin.2
        dispatcher := some i
        owned := some i
        sessions := o.sessions ++ [i]
        loops := o.loops.set i
          { g with
            building := false
            queue := g.queue ++ [.run (.work (.load url)), .run (.lifecycle o.machine.begin.1)] }
        journal := .queued g.engine (.lifecycle o.machine.begin.1) ::
          .queued g.engine (.work (.load url)) :: .began g.engine o.machine.begin.1 ::
          o.journal } := by
  have hopen : (o.openSession i g).loop? i = some { g with building := false } := by
    have hset := Outline.loop?_setLoop hg { g with building := false } i
    rw [if_pos rfl] at hset
    exact hset
  have haccepts : ({ g with building := false } : Strand).accepts := by
    simp [Strand.accepts, hc, ha]
  have hload : (o.openSession i g).submitTo i (.work (.load url)) =
      ((o.openSession i g).setLoop i (({ g with building := false } : Strand).push
        (.work (.load url)))).note (.queued g.engine (.work (.load url))) := by
    unfold Outline.submitTo
    simp only [hopen, haccepts, if_true]
  have hloop : ((o.openSession i g).submitTo i (.work (.load url))).loop? i =
      some (({ g with building := false } : Strand).push (.work (.load url))) := by
    rw [loop?_submitTo, if_pos rfl, hopen]
    simp only [Option.map_some, haccepts, if_true]
  have haccepts' : (({ g with building := false } : Strand).push
      (.work (.load url))).accepts := haccepts
  unfold Outline.begin
  unfold Outline.submitTo at hload hloop ⊢
  rw [hload] at hloop ⊢
  simp only [hloop, haccepts', if_true]
  simp only [Outline.setLoop, Outline.note, Outline.openSession, Strand.push, List.set_set,
    List.append_assoc, List.cons_append, List.nil_append]

/-- The session that begins is the latest one, and it is running. -/
theorem begin_fields (hg : o.loop? i = some g) (hc : g.closed = false) (ha : g.alive)
    (url : String) :
    (o.begin i g url).machine = o.machine.begin.2 ∧
      (o.begin i g url).sessions.getLast? = some i ∧ (o.begin i g url).dispatcher = some i := by
  rw [begin_eq hg hc ha url]
  exact ⟨rfl, List.getLast?_concat, rfl⟩

/-- Its loop is to apply the state that the machine begins in, and no flag. -/
theorem begin_loop {k : Strand} (ho : Placed o) (hg : o.loop? i = some g) (hb : g.building)
    (ha : g.alive) {url : String} (hk : (o.begin i g url).loop? i = some k) :
    k.targets = [o.machine.begin.1] ∧ k.flags = [] := by
  have hlt : i < o.loops.length := (List.getElem?_eq_some_iff.1 hg).1
  have htargets := ho.targets_of_building hg hb
  have hflags := ho.flags_of_building hg hb
  rw [begin_eq hg (ho.building i g hg hb).1 ha url] at hk
  simp only [Outline.loop?] at hk
  rw [List.getElem?_set_self hlt] at hk
  rw [← Option.some.inj hk]
  unfold Strand.targets at htargets ⊢
  unfold Strand.flags at hflags ⊢
  rw [List.filterMap_append, List.filterMap_append, htargets, hflags]
  exact ⟨rfl, rfl⟩

/-- The loops after a granted request: the loop of the running session is to
apply the state that was asked for. -/
theorem grant_loop {c : Command} {t : Transition} {m : Machine} (ho : Placed o)
    (hm : o.machine.request c = .ok (t, m)) (j : Nat) :
    (o.grant c t m).loop? j =
      if o.dispatcher = some j then
        (o.loop? j).map fun g => if g.accepts then g.push (.lifecycle t.next) else g
      else o.loop? j := by
  obtain ⟨-, -, -, hdispatch⟩ := Machine.request_eq_ok hm
  unfold Outline.grant Outline.submit
  cases hd : o.dispatcher with
  | none =>
    simp only [Outline.note, ite_self, reduceCtorEq, if_false]
    rfl
  | some i =>
    have hawake : t.dispatch := hdispatch.2 (ho.awake (by simp [hd]))
    simp only [hawake, if_true, Outline.note, Option.some.injEq]
    rw [loop?_submitTo]
    rfl

/-- A granted request is queued on the loop of the running session while that is
alive. -/
theorem grant_cases {c : Command} {t : Transition} {m : Machine} (ho : Placed o)
    (hm : o.machine.request c = .ok (t, m)) {j : Nat} {k : Strand}
    (hk : (o.grant c t m).loop? j = some k) :
    ∃ g, o.loop? j = some g ∧
      ((o.dispatcher = some j ∧ g.alive ∧ k = g.push (.lifecycle t.next)) ∨
        (k = g ∧ (o.dispatcher = some j → g.alive = false))) := by
  rw [grant_loop ho hm] at hk
  by_cases hd : o.dispatcher = some j
  · rw [if_pos hd] at hk
    obtain ⟨g, hg, rfl⟩ := Option.map_eq_some_iff.1 hk
    have hopen := ho.opened j g hd hg
    refine ⟨g, hg, ?_⟩
    by_cases ha : g.alive
    · have haccepts : g.accepts := by simp [Strand.accepts, hopen, ha]
      exact .inl ⟨hd, ha, if_pos haccepts⟩
    · have hrefuses : ¬g.accepts := by simp [Strand.accepts, ha]
      exact .inr ⟨if_neg hrefuses, fun _ => Bool.eq_false_iff.2 ha⟩
  · rw [if_neg hd] at hk
    exact ⟨k, hk, .inr ⟨rfl, fun h => absurd h hd⟩⟩

theorem grant_fields {c : Command} {t : Transition} {m : Machine} :
    (o.grant c t m).machine = m ∧ (o.grant c t m).hidden = o.hidden ∧
      (o.grant c t m).sessions = o.sessions ∧ (o.grant c t m).dispatcher = o.dispatcher := by
  have hsubmit (o : Outline) (t : Task) : (o.submit t).machine = o.machine ∧
      (o.submit t).hidden = o.hidden ∧ (o.submit t).sessions = o.sessions ∧
      (o.submit t).dispatcher = o.dispatcher := by
    unfold Outline.submit
    cases hd : o.dispatcher with
    | none => exact ⟨rfl, rfl, rfl, hd⟩
    | some i =>
      simp only
      rcases submitTo_cases o i t with ⟨heq, -⟩ | ⟨g, -, -, heq⟩
      · rw [heq]
        exact ⟨rfl, rfl, rfl, hd⟩
      · rw [heq]
        exact ⟨rfl, rfl, rfl, hd⟩
  unfold Outline.grant
  split
  · exact hsubmit _ _
  · exact ⟨rfl, rfl, rfl, rfl⟩

/-- The journal after a granted request. -/
theorem grant_journal {c : Command} {t : Transition} {m : Machine} :
    (o.grant c t m).journal = .requested c t.next :: o.journal ∨
      ∃ e, (o.grant c t m).journal =
        .queued e (.lifecycle t.next) :: .requested c t.next :: o.journal := by
  unfold Outline.grant Outline.submit
  split
  · split
    · exact .inl rfl
    · next i hd =>
      rcases submitTo_cases (Outline.note { o with machine := m } (.requested c t.next)) i
        (.lifecycle t.next) with ⟨heq, -⟩ | ⟨g, -, -, heq⟩
      · rw [heq]
        exact .inl rfl
      · rw [heq]
        exact .inr ⟨g.engine, rfl⟩
  · exact .inl rfl

/-- A lifecycle task applies its state, and tells it if it is another than the
one applied before. -/
theorem lifecycle_eq (o : Outline) (i k : Nat) (g : Strand) (s : State) (rest : List Message)
    (v : View) :
    ((o.take i g (.lifecycle s) rest v).note (.viewed g.engine v)).settleOn k s =
      { o with
        machine := { o.machine with applied := s }
        loops := o.loops.set i { g with queue := rest, view := v }
        journal :=
          if o.machine.applied = s then
            .viewed g.engine v :: .ran g.engine (.lifecycle s) :: o.journal
          else
            .telling k (.stateChanged s) :: .viewed g.engine v ::
              .ran g.engine (.lifecycle s) :: o.journal } := by
  unfold Outline.settleOn Machine.confirm
  simp only [Outline.take, Outline.note, Outline.setLoop]
  by_cases h : o.machine.applied = s
  · subst h
    simp only [if_true, Bool.false_eq_true, if_false]
  · simp only [h, if_false, if_true]

/-- What can be read after a lifecycle task. -/
theorem lifecycle_readings (o : Outline) (k e : Nat) (s : State) (v : View) {j' : List Entry}
    (hj : j' = if o.machine.applied = s then .viewed e v :: .ran e (.lifecycle s) :: o.journal
      else .telling k (.stateChanged s) :: .viewed e v :: .ran e (.lifecycle s) :: o.journal) :
    latest j' = latest o.journal ∧ agenda j' = agenda o.journal ∧ effective j' = s ∧
      told j' = (if o.machine.applied = s then told o.journal else told o.journal ++ [s]) ∧
      isDriven j' = (latest o.journal == some e || isDriven o.journal) ∧
      (Loyal j' ↔ (latest o.journal = some e ∨ effective o.journal = s) ∧ Loyal o.journal) := by
  subst hj
  by_cases h : o.machine.applied = s
  · simp [h, latest, agenda, effective, told, isDriven, Loyal]
  · simp [h, latest, agenda, effective, told, isDriven, Loyal]

/-- A loyal lifecycle task is one of the latest session, or changes nothing. -/
theorem lifecycle_loyal {k : Nat} {s : State} {rest : List Message} {v : View}
    (hl : Loyal (((o.take i g (.lifecycle s) rest v).note (.viewed g.engine v)).settleOn k
      s).journal) : latest o.journal = some g.engine ∨ effective o.journal = s := by
  rw [lifecycle_eq] at hl
  obtain ⟨-, -, -, -, -, hiff⟩ := lifecycle_readings o k g.engine s v rfl
  exact (hiff.1 hl).1

/-- Whether a session stays steady over a lifecycle task. -/
theorem lifecycle_steady (o : Outline) (k e : Nat) (s : State) (v : View) {j' : List Entry}
    (hj : j' = if o.machine.applied = s then .viewed e v :: .ran e (.lifecycle s) :: o.journal
      else .telling k (.stateChanged s) :: .viewed e v :: .ran e (.lifecycle s) :: o.journal) :
    Steady j' ↔ (latest o.journal = some e ∨ effective o.journal = s) ∧ Steady o.journal := by
  subst hj
  by_cases h : o.machine.applied = s
  · simp [h, Steady]
  · simp [h, Steady]

end

/-! ## the journal only grows -/

section

variable {p : Call → Bool} {o o' : Outline}

theorem Shift.journal (h : Shift p o o') (ho : Orderly o) : o.journal <:+ o'.journal := by
  cases h with
  | notify _ => exact List.suffix_cons _ _
  | @request c t m hm =>
    rcases @grant_journal o c t m with hj | ⟨e, hj⟩
    · rw [hj]
      exact List.suffix_cons _ _
    · rw [hj]
      exact (List.suffix_cons _ _).trans (List.suffix_cons _ _)
  | @ready i g url hg hb ha =>
    rw [begin_eq hg (ho.building i g hg hb).1 ha url]
    exact (List.suffix_cons _ _).trans ((List.suffix_cons _ _).trans (List.suffix_cons _ _))
  | @giveUp i e hi =>
    obtain ⟨g, -, -, heq⟩ := ho.giveUp_eq hi e
    rw [heq]
    exact List.suffix_cons _ _
  | finish hg hb => exact List.suffix_cons _ _
  | lifecycle hg hb hq =>
    rw [lifecycle_eq]
    split
    · exact (List.suffix_cons _ _).trans (List.suffix_cons _ _)
    · exact (List.suffix_cons _ _).trans ((List.suffix_cons _ _).trans (List.suffix_cons _ _))

theorem Step.journal (h : Step p o o') (ho : Orderly o) : o.journal <:+ o'.journal := by
  have hsubmit (o : Outline) (i : Nat) (t : Task) : o.journal <:+ (o.submitTo i t).journal := by
    rcases submitTo_cases o i t with ⟨heq, -⟩ | ⟨g, -, -, heq⟩
    · exact heq.symm ▸ List.suffix_rfl
    · exact heq.symm ▸ List.suffix_cons _ _
  cases h with
  | shift h => exact h.journal ho
  | glance h =>
    cases h with
    | @hide i v hi =>
      have hnote : o.journal <:+ (Outline.note { o with hidden := v } (.flipped v)).journal :=
        List.suffix_cons _ _
      exact hnote.trans (hsubmit _ _ _)
    | view hg hb hq => exact List.suffix_cons _ _
    | visibility hg hb hq => exact List.suffix_cons _ _
  | quiet he => exact List.suffix_cons _ _
  | attempt => exact List.suffix_rfl
  | openLoop => exact List.suffix_rfl
  | push ht => exact hsubmit _ _ _
  | fail hg hb => exact List.suffix_rfl
  | take hg hb hq ht => exact List.suffix_cons _ _

end

/-! ## who changes the state -/

/-- Only the latest session has lifecycle tasks, and it has run all of them. -/
structure Exclusive (o : Outline) : Prop where
  alone : ∀ j g, o.loop? j = some g → o.sessions.getLast? ≠ some j → g.targets = []
  loyal : Loyal o.journal

section

variable {p : Call → Bool} {o o' : Outline} {i : Nat} {g : Strand}

theorem Calm.exclusive (h : Calm False o o') (ho' : Orderly o') (he : Exclusive o) :
    Exclusive o' := by
  refine ⟨fun j g' hg' hj => ?_, h.agree.loyal.2 he.loyal⟩
  by_cases hmem : j ∈ o.sessions
  · obtain ⟨g, hg, -, ht, -, -⟩ := h.loop j g' hmem hg'
    rw [ht]
    exact he.alone j g hg (h.sessions ▸ hj)
  · by_contra hne
    exact hmem (h.sessions ▸ ho'.scheduled j g' hg' (.inl hne))

theorem Exclusive.grant {c : Command} {t : Transition} {m : Machine} (he : Exclusive o)
    (ho : Orderly o) (hm : o.machine.request c = .ok (t, m)) : Exclusive (o.grant c t m) := by
  obtain ⟨-, -, hsessions, -⟩ := @grant_fields o c t m
  constructor
  · intro j k hk hj
    rw [hsessions] at hj
    rw [grant_loop ho.toPlaced hm, if_neg (fun hd => hj (ho.current j hd))] at hk
    exact he.alone j k hk hj
  · rcases @grant_journal o c t m with hjournal | ⟨e, hjournal⟩
    · rw [hjournal]
      exact he.loyal
    · rw [hjournal]
      exact he.loyal

/-- A session that begins when nothing is left anywhere is the only one with
lifecycle tasks. -/
theorem Exclusive.begin {url : String} (he : Exclusive o) (ho : Orderly o)
    (hg : o.loop? i = some g) (hb : g.building) (ha : g.alive)
    (hf : FreshStarts (o.begin i g url).journal) : Exclusive (o.begin i g url) := by
  rw [begin_eq hg (ho.building i g hg hb).1 ha url] at hf ⊢
  refine ⟨fun j k hk hj => ?_, he.loyal⟩
  rcases loop?_setLoop_cases hg hk with ⟨rfl, -⟩ | ⟨-, hk⟩
  · exact absurd List.getLast?_concat hj
  · rw [← ho.waiting j k hk]
    exact hf.1 k.engine

/-- A loop with a lifecycle task to run is that of the latest session. -/
theorem Exclusive.lifecycle {k : Nat} {s : State} {rest : List Message} (he : Exclusive o)
    (ho : Orderly o) (hg : o.loop? i = some g) (hq : g.queue = .run (.lifecycle s) :: rest)
    (v : View) :
    Exclusive (((o.take i g (.lifecycle s) rest v).note (.viewed g.engine v)).settleOn k s) := by
  have hlast : o.sessions.getLast? = some i := by
    by_contra hne
    have hnone := he.alone i g hg hne
    rw [targets_of_queue hq] at hnone
    simp [target?] at hnone
  rw [lifecycle_eq]
  constructor
  · intro j k hk hj
    rcases loop?_setLoop_cases hg hk with ⟨rfl, -⟩ | ⟨-, hk⟩
    · exact absurd hlast hj
    · exact he.alone j k hk hj
  · obtain ⟨-, -, -, -, -, hloyal⟩ := lifecycle_readings o k g.engine s v rfl
    exact hloyal.2 ⟨.inl (ho.latest i g hlast hg), he.loyal⟩

theorem Shift.exclusive (h : Shift p o o') (ho : Orderly o) (hf : FreshStarts o'.journal)
    (he : Exclusive o) : Exclusive o' := by
  cases h with
  | notify _ => exact ⟨he.alone, he.loyal⟩
  | request hm => exact he.grant ho hm
  | ready url hg hb ha => exact he.begin ho hg hb ha hf
  | @giveUp i e hi =>
    obtain ⟨g, hg, hlast, heq⟩ := ho.giveUp_eq hi e
    rw [heq]
    refine ⟨fun j k hk hj => ?_, he.loyal⟩
    rcases loop?_setLoop_cases (by exact hg) hk with ⟨rfl, -⟩ | ⟨-, hk⟩
    · exact absurd hlast hj
    · exact he.alone j k hk hj
  | @finish i g hg hb =>
    refine ⟨fun j k hk hj => ?_, he.loyal⟩
    rcases loop?_setLoop_cases hg hk with ⟨rfl, rfl⟩ | ⟨-, hk⟩
    · rfl
    · exact he.alone j k hk hj
  | lifecycle hg hb hq => exact he.lifecycle ho hg hq _

/-! ## the applied and the requested state -/

/-- The applied state, then what the loop of the latest session is still to
apply, in the end the requested state; and no two neighbours are the same. -/
structure Chained (o : Outline) : Prop where
  chain : ∀ i g, o.sessions.getLast? = some i → o.loop? i = some g →
    (o.machine.applied :: g.targets).IsChain (· ≠ ·)
  last : ∀ i g, o.dispatcher = some i → o.loop? i = some g → g.alive →
    (o.machine.applied :: g.targets).getLast? = some o.machine.requested
  effective : o.machine.applied = effective o.journal

theorem Calm.chained (h : Calm False o o') (ho : Orderly o) (hc : Chained o) : Chained o' where
  chain i g' hi hg' := by
    rw [h.sessions] at hi
    obtain ⟨g, hg, -, ht, -, -⟩ := h.loop i g' (List.mem_of_getLast? hi) hg'
    rw [h.machine, ht]
    exact hc.chain i g hi hg
  last i g' hi hg' ha := by
    rw [h.dispatcher] at hi
    obtain ⟨g, hg, -, ht, ha', -⟩ := h.loop i g' (List.mem_of_getLast? (ho.current i hi)) hg'
    rw [h.machine, ht]
    exact hc.last i g hi hg (ha' ▸ ha)
  effective := by rw [h.machine, h.agree.effective, hc.effective]

/-- One more state at the end of a chain. -/
theorem isChain_concat {l : List State} {a b : State} (h : l.IsChain (· ≠ ·))
    (hlast : l.getLast? = some a) (hne : a ≠ b) : (l ++ [b]).IsChain (· ≠ ·) := by
  rw [List.isChain_append]
  refine ⟨h, by simp, fun x hx y hy => ?_⟩
  rw [hlast] at hx
  simp at hx hy
  rw [← hx, ← hy]
  exact hne

/-- If it is one of another session, its state is the one that was applied. -/
theorem lifecycle_whose {i : Nat} {g : Strand} {s : State} {rest : List Message} (ho : Orderly o)
    (hc : Chained o) (hg : o.loop? i = some g) (hq : g.queue = .run (.lifecycle s) :: rest)
    (hl : latest o.journal = some g.engine ∨ Instance.effective o.journal = s) (v : View)
    (j : Nat) (k : Strand) (hj : o.sessions.getLast? = some j)
    (hk : (o.loops.set i { g with queue := rest, view := v })[j]? = some k) :
    ∃ k', o.loop? j = some k' ∧ k.alive = k'.alive ∧
      (k'.targets = s :: k.targets ∨ (k'.targets = k.targets ∧ o.machine.applied = s)) := by
  have hlt : i < o.loops.length := (List.getElem?_eq_some_iff.1 hg).1
  by_cases hij : i = j
  · subst hij
    rw [List.getElem?_set_self hlt] at hk
    rw [← Option.some.inj hk]
    exact ⟨g, hg, rfl, .inl (targets_of_queue hq)⟩
  · rw [List.getElem?_set_ne hij] at hk
    refine ⟨k, hk, rfl, .inr ⟨rfl, ?_⟩⟩
    rcases hl with hlatest | hsame
    · have hengine := ho.latest j k hj hk
      rw [hlatest, Option.some.injEq] at hengine
      exact absurd (ho.distinct i j g k hg hk hengine) hij
    · rw [hc.effective, hsame]

/-- A request that is accepted asks for another state than the one before. -/
theorem Chained.grant {c : Command} {t : Transition} {m : Machine} (hc : Chained o)
    (ho : Orderly o) (hm : o.machine.request c = .ok (t, m)) : Chained (o.grant c t m) := by
  obtain ⟨rfl, -, hne, -⟩ := Machine.request_eq_ok hm
  obtain ⟨hmachine, -, hsessions, hdispatcher⟩ :=
    @grant_fields o c t { o.machine with requested := t.next }
  constructor
  · intro i k hi hk
    rw [hsessions] at hi
    rw [hmachine]
    obtain ⟨g, hg, ⟨hd, ha, rfl⟩ | ⟨rfl, -⟩⟩ := grant_cases ho.toPlaced hm hk
    · rw [Strand.targets_push]
      exact isChain_concat (hc.chain i g hi hg) (hc.last i g hd hg ha) hne.symm
    · exact hc.chain i k hi hg
  · intro i k hd hk ha
    rw [hdispatcher] at hd
    rw [hmachine]
    obtain ⟨g, hg, ⟨-, -, rfl⟩ | ⟨rfl, hdead⟩⟩ := grant_cases ho.toPlaced hm hk
    · rw [Strand.targets_push, ← List.cons_append]
      exact List.getLast?_concat
    · simp [hdead hd] at ha
  · rw [hmachine]
    rcases @grant_journal o c t { o.machine with requested := t.next } with hj | ⟨e, hj⟩
    · rw [hj]
      exact hc.effective
    · rw [hj]
      exact hc.effective

/-- A session begins with nothing applied, whatever was before. -/
theorem Chained.begin {i : Nat} {g : Strand} (ho : Orderly o) (hg : o.loop? i = some g)
    (hb : g.building) (ha : g.alive) (url : String) : Chained (o.begin i g url) := by
  have hopen := (ho.building i g hg hb).1
  obtain ⟨hmachine, hsessions, hdispatcher⟩ := begin_fields hg hopen ha url
  have hbegin : o.machine.begin.2.applied = .uninitialized ∧
      o.machine.begin.1 = o.machine.begin.2.requested := ⟨rfl, rfl⟩
  have hawake := Machine.begin_requested_ne_uninitialized o.machine
  constructor
  · intro j k hj hk
    obtain rfl := Option.some.inj (hsessions.symm.trans hj)
    rw [hmachine, (begin_loop ho.toPlaced hg hb ha hk).1, hbegin.1, hbegin.2]
    simpa using hawake.symm
  · intro j k hj hk _
    obtain rfl := Option.some.inj (hdispatcher.symm.trans hj)
    rw [hmachine, (begin_loop ho.toPlaced hg hb ha hk).1, hbegin.2]
    rfl
  · rw [begin_eq hg hopen ha url]
    rfl

/-- A lifecycle task moves its state from the queue to what is applied. -/
theorem Chained.lifecycle {i k : Nat} {g : Strand} {s : State} {rest : List Message}
    (hc : Chained o) (ho : Orderly o) (hg : o.loop? i = some g)
    (hq : g.queue = .run (.lifecycle s) :: rest)
    (hl : latest o.journal = some g.engine ∨ Instance.effective o.journal = s) (v : View) :
    Chained (((o.take i g (.lifecycle s) rest v).note (.viewed g.engine v)).settleOn k s) := by
  rw [lifecycle_eq]
  obtain ⟨-, -, heffective, -, -, -⟩ := lifecycle_readings o k g.engine s v rfl
  have hwhose := lifecycle_whose ho hc hg hq hl v
  constructor
  · intro j k hj hk
    obtain ⟨k', hk', -, hmine | ⟨hother, happlied⟩⟩ := hwhose j k hj hk
    · have hchain := hc.chain j k' hj hk'
      rw [hmine] at hchain
      exact hchain.tail
    · have hchain := hc.chain j k' hj hk'
      rwa [hother, happlied] at hchain
  · intro j k hj hk ha
    obtain ⟨k', hk', ha', hmine | ⟨hother, happlied⟩⟩ := hwhose j k (ho.current j hj) hk
    · have hlast := hc.last j k' hj hk' (ha' ▸ ha)
      rw [hmine, List.getLast?_cons_cons] at hlast
      exact hlast
    · have hlast := hc.last j k' hj hk' (ha' ▸ ha)
      rwa [hother, happlied] at hlast
  · exact heffective.symm

theorem Shift.chained (h : Shift p o o') (ho : Orderly o) (hs : Steady o'.journal)
    (hbefore : Steady o.journal → Chained o) : Chained o' := by
  cases h with
  | notify _ =>
    have hc := hbefore hs
    exact ⟨hc.chain, hc.last, hc.effective⟩
  | @request c t m hm =>
    have hsteady : Steady o.journal := by
      rcases @grant_journal o c t m with hj | ⟨e, hj⟩
      · rw [hj] at hs
        exact hs
      · rw [hj] at hs
        exact hs
    exact (hbefore hsteady).grant ho hm
  | ready url hg hb ha => exact .begin ho hg hb ha url
  | @giveUp i e hi =>
    obtain ⟨g, hg, hlast, heq⟩ := ho.giveUp_eq hi e
    rw [heq] at hs ⊢
    have hc := hbefore hs
    refine ⟨fun j k hj hk => ?_, fun j k hd => by simp [Outline.setLoop, Outline.note] at hd,
      hc.effective⟩
    rcases loop?_setLoop_cases (by exact hg) hk with ⟨rfl, rfl⟩ | ⟨-, hk⟩
    · rw [Strand.targets_close]
      exact hc.chain i g hlast hg
    · exact hc.chain j k hj hk
  | @finish i g hg hb =>
    have hc := hbefore hs
    constructor
    · intro j k hj hk
      rcases loop?_setLoop_cases hg hk with ⟨rfl, rfl⟩ | ⟨-, hk⟩
      · exact .singleton _
      · exact hc.chain j k hj hk
    · intro j k hj hk ha
      rcases loop?_setLoop_cases hg hk with ⟨rfl, rfl⟩ | ⟨-, hk⟩
      · simp [Strand.finish] at ha
      · exact hc.last j k hj hk ha
    · exact hc.effective
  | @lifecycle i k g s rest hg hb hq =>
    rw [lifecycle_eq] at hs
    obtain ⟨hwhose, hsteady⟩ :=
      (lifecycle_steady o k g.engine s (View.of s o.hidden) rfl).1 hs
    exact (hbefore hsteady).lifecycle ho hg hq hwhose _

/-! ## the agenda -/

/-- What a journal says was told is in order. -/
structure Good (j : List Entry) : Prop where
  ordered : told j <+: agenda j
  apart : (told j).IsChain (· ≠ ·)
  unbegun : latest j = none → told j = []

theorem Good.of_agree {j k : List Entry} (h : Good j) (hk : Agree k j) : Good k := by
  constructor
  · rw [hk.told, hk.agenda]
    exact h.ordered
  · rw [hk.told]
    exact h.apart
  · rw [hk.told, hk.latest]
    exact h.unbegun

/-- A request makes the agenda longer, if it changes that at all. -/
theorem Good.requested {c : Command} {s : State} {j : List Entry} (h : Good j) :
    Good (.requested c s :: j) := by
  refine ⟨?_, h.apart, h.unbegun⟩
  have hagenda : agenda (.requested c s :: j) =
      if isRunning j then agenda j ++ [s] else agenda j := rfl
  rw [hagenda]
  split
  · exact h.ordered.trans (List.prefix_append _ _)
  · exact h.ordered

/-- What was told and what is in the queue make up the agenda. -/
structure Recounted (o : Outline) : Prop where
  heard : o.machine.applied = (told o.journal).getLast?.getD .uninitialized
  pending : ∀ i g, o.sessions.getLast? = some i → o.loop? i = some g →
    told o.journal ++ g.targets <+: agenda o.journal
  complete : ∀ i g, o.dispatcher = some i → o.loop? i = some g → g.alive →
    told o.journal ++ g.targets = agenda o.journal
  good : ∀ k, k <:+ o.journal → Good k

theorem Recounted.now (h : Recounted o) : Good o.journal :=
  h.good _ List.suffix_rfl

theorem good_cons {e : Entry} {j : List Entry} (h : ∀ k, k <:+ j → Good k) (he : Good (e :: j)) :
    ∀ k, k <:+ e :: j → Good k := by
  intro k hk
  rcases List.suffix_cons_iff.1 hk with rfl | hk
  · exact he
  · exact h k hk

theorem Calm.recounted (h : Calm False o o') (ho : Orderly o) (hr : Recounted o) :
    Recounted o' where
  heard := by rw [h.machine, h.agree.told, hr.heard]
  pending i g' hi hg' := by
    rw [h.sessions] at hi
    obtain ⟨g, hg, -, ht, -, -⟩ := h.loop i g' (List.mem_of_getLast? hi) hg'
    rw [h.agree.told, h.agree.agenda, ht]
    exact hr.pending i g hi hg
  complete i g' hi hg' ha := by
    rw [h.dispatcher] at hi
    obtain ⟨g, hg, -, ht, ha', -⟩ := h.loop i g' (List.mem_of_getLast? (ho.current i hi)) hg'
    rw [h.agree.told, h.agree.agenda, ht]
    exact hr.complete i g hi hg (ha' ▸ ha)
  good k hk := by
    rcases h.earlier k hk with hk | hk
    · exact hr.good k hk
    · exact hr.now.of_agree hk

/-- Requests are entered on the agenda while a session is running. -/
theorem Recounted.grant {c : Command} {t : Transition} {m : Machine} (hr : Recounted o)
    (ho : Orderly o) (hm : o.machine.request c = .ok (t, m)) : Recounted (o.grant c t m) := by
  obtain ⟨rfl, -, -, -⟩ := Machine.request_eq_ok hm
  obtain ⟨hmachine, -, hsessions, hdispatcher⟩ :=
    @grant_fields o c t { o.machine with requested := t.next }
  obtain ⟨htold, hagenda⟩ : told (o.grant c t { o.machine with requested := t.next }).journal =
        told o.journal ∧
      agenda (o.grant c t { o.machine with requested := t.next }).journal =
        if o.dispatcher.isSome then agenda o.journal ++ [t.next] else agenda o.journal := by
    rw [← ho.running]
    rcases @grant_journal o c t { o.machine with requested := t.next } with hj | ⟨e, hj⟩
    · rw [hj]
      exact ⟨rfl, rfl⟩
    · rw [hj]
      exact ⟨rfl, rfl⟩
  constructor
  · rw [hmachine, htold]
    exact hr.heard
  · intro i k hi hk
    rw [hsessions] at hi
    rw [htold, hagenda]
    obtain ⟨g, hg, ⟨hd, ha, rfl⟩ | ⟨rfl, -⟩⟩ := grant_cases ho.toPlaced hm hk
    · have hrunning : o.dispatcher.isSome := by rw [hd]; rfl
      rw [if_pos hrunning, Strand.targets_push, ← List.append_assoc, hr.complete i g hd hg ha]
      exact List.prefix_rfl
    · split
      · exact (hr.pending i k hi hg).trans (List.prefix_append _ _)
      · exact hr.pending i k hi hg
  · intro i k hd hk ha
    rw [hdispatcher] at hd
    have hrunning : o.dispatcher.isSome := by rw [hd]; rfl
    rw [htold, hagenda, if_pos hrunning]
    obtain ⟨g, hg, ⟨-, halive, rfl⟩ | ⟨rfl, hdead⟩⟩ := grant_cases ho.toPlaced hm hk
    · rw [Strand.targets_push, ← List.append_assoc, hr.complete i g hd hg halive]
      rfl
    · simp [hdead hd] at ha
  · have hnow := hr.now.requested (c := c) (s := t.next)
    rcases @grant_journal o c t { o.machine with requested := t.next } with hj | ⟨e, hj⟩
    · rw [hj]
      exact good_cons hr.good hnow
    · rw [hj]
      exact good_cons (good_cons hr.good hnow) ⟨hnow.ordered, hnow.apart, hnow.unbegun⟩

/-- A new session has nothing on its agenda but the state that it begins in. -/
theorem Recounted.begin {i : Nat} {g : Strand} {url : String} (hr : Recounted o) (ho : Orderly o)
    (hg : o.loop? i = some g) (hb : g.building) (ha : g.alive) :
    Recounted (o.begin i g url) := by
  have hc := (ho.building i g hg hb).1
  obtain ⟨-, hsessions, hdispatcher⟩ := begin_fields hg hc ha url
  have hreadings : told (o.begin i g url).journal = [] ∧
      agenda (o.begin i g url).journal = [o.machine.begin.1] := by
    rw [begin_eq hg hc ha url]
    exact ⟨rfl, rfl⟩
  constructor
  · rw [hreadings.1, begin_eq hg hc ha url]
    rfl
  · intro j k hj hk
    obtain rfl := Option.some.inj (hsessions.symm.trans hj)
    rw [hreadings.1, hreadings.2, (begin_loop ho.toPlaced hg hb ha hk).1]
    exact List.prefix_rfl
  · intro j k hj hk _
    obtain rfl := Option.some.inj (hdispatcher.symm.trans hj)
    rw [hreadings.1, hreadings.2, (begin_loop ho.toPlaced hg hb ha hk).1]
    rfl
  · rw [begin_eq hg hc ha url]
    have hfirst (j' : List Entry) (htold : told j' = []) : Good j' :=
      ⟨by rw [htold]; exact List.nil_prefix, by rw [htold]; exact .nil, fun _ => htold⟩
    exact good_cons (good_cons (good_cons hr.good (hfirst _ rfl)) (hfirst _ rfl)) (hfirst _ rfl)

/-- What was told and what is in the queue stay the same together when a loyal
lifecycle task runs. -/
theorem lifecycle_moved {i : Nat} {g : Strand} {s : State} {rest : List Message} (ho : Orderly o)
    (hc : Chained o) (hg : o.loop? i = some g) (hq : g.queue = .run (.lifecycle s) :: rest)
    (hl : latest o.journal = some g.engine ∨ Instance.effective o.journal = s) (v : View)
    (j : Nat) (k : Strand) (hj : o.sessions.getLast? = some j)
    (hk : (o.loops.set i { g with queue := rest, view := v })[j]? = some k) :
    ∃ k', o.loop? j = some k' ∧ k.alive = k'.alive ∧
      (if o.machine.applied = s then told o.journal else told o.journal ++ [s]) ++ k.targets =
        told o.journal ++ k'.targets := by
  obtain ⟨k', hk', ha, hmine | ⟨hother, happlied⟩⟩ := lifecycle_whose ho hc hg hq hl v j k hj hk
  · have hchain := hc.chain j k' hj hk'
    rw [hmine] at hchain
    have hne : o.machine.applied ≠ s := hchain.rel
    refine ⟨k', hk', ha, ?_⟩
    rw [if_neg hne, hmine, List.append_assoc]
    rfl
  · refine ⟨k', hk', ha, ?_⟩
    rw [if_pos happlied, hother]

/-- Neighbours differ when a state is told only if it is news. -/
theorem Recounted.apart (hr : Recounted o) (s : State) :
    (if o.machine.applied = s then told o.journal else told o.journal ++ [s]).IsChain (· ≠ ·) := by
  split
  · exact hr.now.apart
  · next hne =>
    cases ht : (told o.journal).getLast? with
    | none =>
      rw [List.getLast?_eq_none_iff.1 ht]
      exact .singleton s
    | some a =>
      have happlied := hr.heard
      rw [ht, Option.getD_some] at happlied
      exact isChain_concat hr.now.apart ht (happlied ▸ hne)

/-- There is a latest session once a loop has lifecycle tasks. -/
theorem exists_latest {i : Nat} {g : Strand} (ho : Orderly o) (hg : o.loop? i = some g)
    (ht : g.targets ≠ []) : ∃ j k, o.sessions.getLast? = some j ∧ o.loop? j = some k := by
  have hmem := ho.scheduled i g hg (.inl ht)
  cases hs : o.sessions.getLast? with
  | none =>
    rw [List.getLast?_eq_none_iff.1 hs] at hmem
    simp at hmem
  | some j =>
    obtain ⟨k, hk⟩ := ho.present j (List.mem_of_getLast? hs)
    exact ⟨j, k, rfl, hk⟩

/-- A loyal lifecycle task moves its state from the queue to what was told. -/
theorem Recounted.lifecycle {i k : Nat} {g : Strand} {s : State} {rest : List Message}
    (hr : Recounted o) (ho : Orderly o) (hc : Chained o) (hg : o.loop? i = some g)
    (hq : g.queue = .run (.lifecycle s) :: rest)
    (hl : latest o.journal = some g.engine ∨ Instance.effective o.journal = s) (v : View) :
    Recounted (((o.take i g (.lifecycle s) rest v).note (.viewed g.engine v)).settleOn k s) := by
  rw [lifecycle_eq]
  obtain ⟨-, hagenda, -, htold, -, -⟩ := lifecycle_readings o k g.engine s v rfl
  have hmoved := lifecycle_moved ho hc hg hq hl v
  have happart := hr.apart s
  have hpending : g.targets ≠ [] := by
    rw [targets_of_queue hq]
    simp [target?]
  obtain ⟨last, m, hlast, hm⟩ := exists_latest ho hg hpending
  have hbegun : latest o.journal ≠ none := by
    rw [ho.latest last m hlast hm]
    simp
  have hstart : (if o.machine.applied = s then told o.journal
      else told o.journal ++ [s]) <+: agenda o.journal := by
    obtain ⟨m', hm'⟩ := exists_loop?_setLoop hg { g with queue := rest, view := v } ⟨m, hm⟩
    obtain ⟨m'', hm'', -, hsum⟩ := hmoved last m' hlast hm'
    refine (List.prefix_append _ m'.targets).trans ?_
    rw [hsum]
    exact hr.pending last m'' hlast hm''
  constructor
  · rw [htold]
    split
    · next heq =>
      rw [← hr.heard]
      exact heq.symm
    · rw [List.getLast?_concat]
      rfl
  · intro j m hj hm
    obtain ⟨m', hm', -, hsum⟩ := hmoved j m hj hm
    rw [htold, hagenda, hsum]
    exact hr.pending j m' hj hm'
  · intro j m hj hm ha
    obtain ⟨m', hm', ha', hsum⟩ := hmoved j m (ho.current j hj) hm
    rw [htold, hagenda, hsum]
    exact hr.complete j m' hj hm' (ha' ▸ ha)
  · have hran : Good (.ran g.engine (.lifecycle s) :: o.journal) :=
      ⟨hr.now.ordered, hr.now.apart, hr.now.unbegun⟩
    have hviewed : Good (.viewed g.engine v :: .ran g.engine (.lifecycle s) :: o.journal) :=
      ⟨hr.now.ordered, hr.now.apart, hr.now.unbegun⟩
    have hbefore := good_cons (good_cons hr.good hran) hviewed
    by_cases heq : o.machine.applied = s
    · simp only [heq, if_true]
      exact hbefore
    · simp only [heq, if_false]
      rw [if_neg heq] at happart hstart
      exact good_cons hbefore ⟨hstart, happart, fun h => absurd h hbegun⟩

theorem Shift.recounted (h : Shift p o o') (ho : Orderly o) (hl : Loyal o'.journal)
    (hc : Chained o) (hr : Recounted o) (hp : ∀ s, p (.notify (.stateChanged s)) = false) :
    Recounted o' := by
  cases h with
  | notify hs => simp [hp] at hs
  | request hm => exact hr.grant ho hm
  | ready url hg hb ha => exact hr.begin ho hg hb ha
  | @giveUp i e hi =>
    obtain ⟨g, hg, hlast, heq⟩ := ho.giveUp_eq hi e
    rw [heq]
    refine ⟨hr.heard, fun j k hj hk => ?_,
      fun j k hd => by simp [Outline.setLoop, Outline.note] at hd,
      good_cons hr.good ⟨hr.now.ordered, hr.now.apart, hr.now.unbegun⟩⟩
    rcases loop?_setLoop_cases (by exact hg) hk with ⟨rfl, rfl⟩ | ⟨-, hk⟩
    · rw [Strand.targets_close]
      exact hr.pending i g hlast hg
    · exact hr.pending j k hj hk
  | @finish i g hg hb =>
    refine ⟨hr.heard, fun j k hj hk => ?_, fun j k hj hk ha => ?_,
      good_cons hr.good ⟨hr.now.ordered, hr.now.apart, hr.now.unbegun⟩⟩
    · rcases loop?_setLoop_cases hg hk with ⟨rfl, rfl⟩ | ⟨-, hk⟩
      · exact (List.append_nil (told o.journal)).symm ▸ hr.now.ordered
      · exact hr.pending j k hj hk
    · rcases loop?_setLoop_cases hg hk with ⟨rfl, rfl⟩ | ⟨-, hk⟩
      · simp [Strand.finish] at ha
      · exact hr.complete j k hj hk ha
  | lifecycle hg hb hq => exact hr.lifecycle ho hc hg hq (lifecycle_loyal hl) _

/-! ## runs -/

/-- Sessions that begin on fresh ground are exclusive. -/
theorem play_exclusive (s : BrowserSettings) (ts : List Turn)
    (hf : FreshStarts ((ofSettings s).play ts).journal) :
    Exclusive ((ofSettings s).play ts).outline := by
  have h : Orderly ((ofSettings s).play ts).outline ∧
      (FreshStarts ((ofSettings s).play ts).outline.journal →
        Exclusive ((ofSettings s).play ts).outline) := by
    refine outline_induction (P := fun o => Orderly o ∧ (FreshStarts o.journal → Exclusive o))
      ⟨orderly_ofSettings s, fun _ => ⟨fun j g hg => ?_, trivial⟩⟩ (fun o o' hstep ho => ?_)
      fun t _ => Turn.every_true t
    · have hnone : (ofSettings s).outline.loop? j = none := rfl
      simp [hnone] at hg
    · refine ⟨hstep.orderly ho.1, fun hf => ?_⟩
      have hbefore := ho.2 (hf.of_suffix (hstep.journal ho.1))
      rcases hstep.calm_or_shift ho.1.toPlaced with h | h
      · exact h.exclusive (hstep.orderly ho.1) hbefore
      · exact h.exclusive ho.1 hf hbefore
  exact h.2 hf

/-- The applied state, the queue and the requested state belong together. -/
theorem play_chained (s : BrowserSettings) (ts : List Turn)
    (hs : Steady ((ofSettings s).play ts).journal) :
    Chained ((ofSettings s).play ts).outline := by
  have h : Orderly ((ofSettings s).play ts).outline ∧
      (Steady ((ofSettings s).play ts).outline.journal →
        Chained ((ofSettings s).play ts).outline) := by
    refine outline_induction (P := fun o => Orderly o ∧ (Steady o.journal → Chained o))
      ⟨orderly_ofSettings s, fun _ => ⟨fun i g hi => ?_, fun i g hi => ?_, rfl⟩⟩
      (fun o o' hstep ho => ?_) fun t _ => Turn.every_true t
    · simp [outline, ofSettings] at hi
    · simp [outline, ofSettings] at hi
    · refine ⟨hstep.orderly ho.1, fun hs => ?_⟩
      rcases hstep.calm_or_shift ho.1.toPlaced with h | h
      · exact h.chained ho.1 (ho.2 (h.agree.steady.1 hs))
      · exact h.chained ho.1 hs ho.2
  exact h.2 hs

/-- What was told and what is in the queue make up the agenda, unless callers
tell states themselves. -/
theorem play_recounted (s : BrowserSettings) (ts : List Turn)
    (hp : ∀ s, p (.notify (.stateChanged s)) = false) (hts : ∀ t ∈ ts, t.every p)
    (hl : Loyal ((ofSettings s).play ts).journal) :
    Recounted ((ofSettings s).play ts).outline := by
  have h : Orderly ((ofSettings s).play ts).outline ∧
      (Loyal ((ofSettings s).play ts).outline.journal →
        Chained ((ofSettings s).play ts).outline ∧
        Recounted ((ofSettings s).play ts).outline) := by
    refine outline_induction
      (P := fun o => Orderly o ∧ (Loyal o.journal → Chained o ∧ Recounted o))
      ⟨orderly_ofSettings s, fun _ => ⟨⟨fun i g hi => ?_, fun i g hi => ?_, rfl⟩,
        ⟨rfl, fun i g hi => ?_, fun i g hi => ?_, fun k hk => ?_⟩⟩⟩
      (fun o o' hstep ho => ?_) hts
    · simp [outline, ofSettings] at hi
    · simp [outline, ofSettings] at hi
    · simp [outline, ofSettings] at hi
    · simp [outline, ofSettings] at hi
    · obtain rfl := List.suffix_nil.1 hk
      exact ⟨List.prefix_rfl, .nil, fun _ => rfl⟩
    · refine ⟨hstep.orderly ho.1, fun hl => ?_⟩
      obtain ⟨hc, hr⟩ := ho.2 (hl.of_suffix (hstep.journal ho.1))
      rcases hstep.calm_or_shift ho.1.toPlaced with h | h
      · exact ⟨h.chained ho.1 hc, h.recounted ho.1 hr⟩
      · exact ⟨h.chained ho.1 hl.steady fun _ => hc, h.recounted ho.1 hl hc hr hp⟩
  exact (h.2 hl).2

end

/-! ## what observers hear -/

/-- Whether a call leaves it to the instance to tell its states. -/
def Call.tellsNoState : Call → Bool
  | .notify (.stateChanged _) => false
  | _ => true

/-- In every run whose sessions begin when no earlier loop has lifecycle tasks
left, and at every moment of it: the states told since the latest session began
are the first of its agenda, neighbours differ, and nothing is told before the
first session.  Whenever the loop of the latest session is alive and its queue
is empty, the agenda has been told in full, and the applied state is the
requested one, which was told last. -/
theorem notifications_follow_agenda (s : BrowserSettings) (ts : List Turn)
    (hts : ∀ t ∈ ts, t.every Call.tellsNoState)
    (hfresh : FreshStarts ((ofSettings s).play ts).journal) :
    (∀ j, j <:+ ((ofSettings s).play ts).journal →
      told j <+: agenda j ∧ (told j).IsChain (· ≠ ·) ∧ ((∀ e a, .began e a ∉ j) → told j = [])) ∧
    ∀ i l, ((ofSettings s).play ts).sessions.getLast? = some i →
      ((ofSettings s).play ts).loop? i = some l → l.phase.isAlive → l.queue = [] →
      told ((ofSettings s).play ts).journal = agenda ((ofSettings s).play ts).journal ∧
        ((ofSettings s).play ts).machine.applied = ((ofSettings s).play ts).machine.requested ∧
        (told ((ofSettings s).play ts).journal).getLast? =
          some ((ofSettings s).play ts).machine.applied := by
  have ho := play_orderly (s := s) ts
  have hloyal := (play_exclusive s ts hfresh).loyal
  have hchained := play_chained s ts hloyal.steady
  have hrecounted := play_recounted s ts (fun _ => rfl) hts hloyal
  constructor
  · intro j hj
    have hgood := hrecounted.good j hj
    exact ⟨hgood.ordered, hgood.apart, fun hnone => hgood.unbegun (latest_eq_none_iff.2 hnone)⟩
  · intro i l hi hl halive hempty
    generalize (ofSettings s).play ts = x at *
    have hg : x.outline.loop? i = some (strand l) := by rw [loop?_outline, hl, Option.map_some]
    have hnone : (strand l).targets = [] := by
      unfold Strand.targets
      have hq : (strand l).queue = [] := hempty
      rw [hq]
      rfl
    -- a closed loop that is alive still has to stop
    have hd : x.outline.dispatcher = some i := by
      cases hd : x.outline.dispatcher with
      | some j => rw [(ho.current j hd).symm.trans hi]
      | none =>
        have hstop := ho.stopping i _ hg (ho.closed i _ hd hi hg) halive
        have hq : (strand l).queue = [] := hempty
        rw [hq] at hstop
        simp at hstop
    have hlast := hchained.last i _ hd hg halive
    have hcomplete := hrecounted.complete i _ hd hg halive
    rw [hnone] at hlast hcomplete
    rw [List.append_nil] at hcomplete
    have happlied : x.machine.applied = x.machine.requested := Option.some.inj hlast
    refine ⟨hcomplete, happlied, ?_⟩
    have hheard := hrecounted.heard
    cases ht : (told x.journal).getLast? with
    | some a =>
      have ht' : (told x.outline.journal).getLast? = some a := ht
      rw [ht', Option.getD_some] at hheard
      rw [← hheard]
      rfl
    | none =>
      -- a running session was asked for a state
      have hawake := ho.awake (by rw [hd]; rfl)
      have ht' : (told x.outline.journal).getLast? = none := ht
      rw [ht', Option.getD_none] at hheard
      exact absurd (happlied.symm.trans hheard) hawake

/-- Requests run ahead of the loop, the session ends, and another one begins in
the state that was requested last. -/
def restart : List Turn :=
  [.call (.start {}), .call .resume, .call .suspend, .message 0, .message 0, .message 0,
    .message 0, .call .resume, .call .shutdown, .call (.start {}), .message 1, .message 1]

theorem notifications_follow_agenda_restart :
    (told ((ofSettings ({} : Settings).browser).play restart).journal = [.resumed] ∧
      told ((ofSettings ({} : Settings).browser).play restart).journal =
        agenda ((ofSettings ({} : Settings).browser).play restart).journal) ∧
      told ((ofSettings ({} : Settings).browser).play (restart.take 7)).journal =
        [.suspended, .resumed, .suspended] := by
  have hnow := notifications_follow_agenda ({} : Settings).browser restart (by decide) (by decide)
  have hbefore := notifications_follow_agenda ({} : Settings).browser (restart.take 7)
    (by decide) (by decide)
  refine ⟨⟨by decide, (hnow.2 1 _ rfl rfl rfl rfl).1⟩, ?_⟩
  rw [(hbefore.2 0 _ rfl rfl rfl rfl).1]
  decide

end BrowserHost.Instance
