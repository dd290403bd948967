import BrowserHost.Proofs.Beat

/-!
# BrowserHost.Proofs.Ledger

The work of a loop, from the first task that is accepted to the drop of its
engine.  The journal is the ledger: it says which tasks a loop accepted and
which of them it ran.  Tasks can stand behind the stop, sent by callers who read
the flag before it was raised; they are accepted and never run.

* `Book`: what stands in the queue of a loop is what the ledger leaves open;
* `Onward`, `Continues`: what becomes of loops, and of closed ones;
* `Beats.kept`: beats keep the books.
-/

namespace BrowserHost.Instance

open Engine

/-! ## the ledger -/

/-- The tasks that the loop of engine `e` accepted, oldest first. -/
def accepted (e : Nat) : List Entry → List Task
  | [] => []
  | .queued d t :: j => if d = e then accepted e j ++ [t] else accepted e j
  | _ :: j => accepted e j

/-- The tasks that the loop of engine `e` began to run, oldest first. -/
def executed (e : Nat) : List Entry → List Task
  | [] => []
  | .ran d t :: j => if d = e then executed e j ++ [t] else executed e j
  | _ :: j => executed e j

/-- The engine whose ledger an entry belongs to. -/
def Entry.account? : Entry → Option Nat
  | .queued e _ | .ran e _ | .dropped e => some e
  | _ => none

/-- The engine was dropped once, and its loop ran nothing afterwards. -/
def Retires (e : Nat) (j : List Entry) : Prop :=
  ∃ after before, j = after ++ .dropped e :: before ∧
    executed e after = [] ∧ .dropped e ∉ after ∧ .dropped e ∉ before

section

variable {e : Nat} {j : List Entry}

@[simp] theorem accepted_queued (t : Task) :
    accepted e (.queued e t :: j) = accepted e j ++ [t] := by
  simp [accepted]

@[simp] theorem executed_ran (t : Task) : executed e (.ran e t :: j) = executed e j ++ [t] := by
  simp [executed]

theorem mem_accepted {t : Task} (h : t ∈ accepted e j) : .queued e t ∈ j := by
  induction j with
  | nil => simp [accepted] at h
  | cons d j ih =>
    cases d with
    | queued d t' =>
      simp only [accepted] at h
      split at h
      · next hde =>
        rcases List.mem_append.1 h with h | h
        · exact List.mem_cons_of_mem _ (ih h)
        · rw [hde, List.mem_singleton.1 h]
          exact List.mem_cons_self
      · exact List.mem_cons_of_mem _ (ih h)
    | _ => exact List.mem_cons_of_mem _ (ih h)

/-- Entries of another account. -/
theorem accepted_append {es : List Entry} (h : ∀ d ∈ es, d.account? ≠ some e) :
    accepted e (es ++ j) = accepted e j := by
  induction es with
  | nil => rfl
  | cons d es ih =>
    simp only [List.forall_mem_cons] at h
    rw [← ih h.2]
    cases d with
    | queued d t =>
      have hde : d ≠ e := fun hde => h.1 (congrArg some hde)
      simp only [List.cons_append, accepted, if_neg hde]
    | _ => rfl

theorem executed_append {es : List Entry} (h : ∀ d ∈ es, d.account? ≠ some e) :
    executed e (es ++ j) = executed e j := by
  induction es with
  | nil => rfl
  | cons d es ih =>
    simp only [List.forall_mem_cons] at h
    rw [← ih h.2]
    cases d with
    | ran d t =>
      have hde : d ≠ e := fun hde => h.1 (congrArg some hde)
      simp only [List.cons_append, executed, if_neg hde]
    | _ => rfl

theorem dropped_not_mem_append {es : List Entry} (h : ∀ d ∈ es, d.account? ≠ some e)
    (hj : .dropped e ∉ j) : .dropped e ∉ es ++ j := by
  rw [List.mem_append, not_or]
  exact ⟨fun hmem => h _ hmem rfl, hj⟩

theorem Retires.append {es : List Entry} (h : ∀ d ∈ es, d.account? ≠ some e)
    (hj : Retires e j) : Retires e (es ++ j) := by
  obtain ⟨after, before, rfl, hran, hafter, hbefore⟩ := hj
  refine ⟨es ++ after, before, by rw [List.append_assoc], ?_, ?_, hbefore⟩
  · rw [executed_append h, hran]
  · exact dropped_not_mem_append h hafter

/-- A task may be taken in when the engine is gone. -/
theorem Retires.queued (hj : Retires e j) (t : Task) : Retires e (.queued e t :: j) := by
  obtain ⟨after, before, rfl, hran, hafter, hbefore⟩ := hj
  exact ⟨.queued e t :: after, before, rfl, hran, by simpa using hafter, hbefore⟩

/-- An account that nothing was entered in. -/
theorem of_fresh (h : ∀ d ∈ j, d.account? ≠ some e) :
    accepted e j = [] ∧ executed e j = [] ∧ .dropped e ∉ j := by
  have hj : j = j ++ [] := (List.append_nil j).symm
  rw [hj]
  exact ⟨accepted_append h, executed_append h, dropped_not_mem_append h (by simp)⟩

end

/-! ## the book of a loop -/

/-- What the ledger says of a loop that was sent the stop or not: while the loop
is alive the queue holds what was accepted and not run, the late tasks behind the
stop; a loop that was stopped has run everything else. -/
structure Book (j : List Entry) (l : Loop) (halted : Bool) (late : List Task) : Prop where
  waiting : l.phase.isAlive → ∃ ts,
    accepted l.engine j = executed l.engine j ++ ts ++ late ∧
      l.queue = ts.map .run ++ if halted then .stop :: late.map .run else []
  punctual : halted = false → late = []
  kept : l.phase.isAlive → .dropped l.engine ∉ j
  stopped : l.phase = .stopped →
    halted ∧ accepted l.engine j = executed l.engine j ++ late ∧ Retires l.engine j

theorem isAlive_of_rested {a b : Phase} (h : a.rested = b.rested) : a.isAlive = b.isAlive := by
  cases a <;> cases b <;> first | rfl | cases h

theorem stopped_of_rested {a b : Phase} (h : a.rested = b.rested) (ha : a = .stopped) :
    b = .stopped := by
  subst ha
  cases b <;> first | rfl | cases h

namespace Book

variable {j : List Entry} {l : Loop} {halted : Bool} {late : List Task}

theorem fresh {e : Nat} (h : ∀ d ∈ j, d.account? ≠ some e) (k : Kind) :
    Book j { engine := e, kind := k } false [] where
  waiting _ := by
    obtain ⟨ha, he, -⟩ := of_fresh h
    exact ⟨[], by rw [ha, he]; rfl, rfl⟩
  punctual _ := rfl
  kept _ := (of_fresh h).2.2
  stopped h := nomatch h

/-- Entries of another account. -/
theorem append (es : List Entry) (h : ∀ d ∈ es, d.account? ≠ some l.engine)
    (hb : Book j l halted late) : Book (es ++ j) l halted late where
  waiting ha := by
    rw [accepted_append h, executed_append h]
    exact hb.waiting ha
  punctual := hb.punctual
  kept ha := dropped_not_mem_append h (hb.kept ha)
  stopped hs := by
    rw [accepted_append h, executed_append h]
    exact ⟨(hb.stopped hs).1, (hb.stopped hs).2.1, (hb.stopped hs).2.2.append h⟩

theorem note {d : Entry} (h : d.account? ≠ some l.engine) (hb : Book j l halted late) :
    Book (d :: j) l halted late :=
  hb.append [d] (by simpa using h)

theorem touch (hb : Book j l halted late) {phase : Phase} (h : phase.rested = l.phase.rested)
    (v : View) (ticker : Option Ticker) :
    Book j { l with phase := phase, view := v, ticker := ticker } halted late where
  waiting ha := hb.waiting (isAlive_of_rested h ▸ ha)
  punctual := hb.punctual
  kept ha := hb.kept (isAlive_of_rested h ▸ ha)
  stopped hs := hb.stopped (stopped_of_rested h hs)

/-- The engine is ready. -/
theorem ready (hb : Book j l halted late) (hl : l.phase = .building) (ticker : Option Ticker) :
    Book j { l with phase := .idle, ticker := ticker } halted late where
  waiting _ := hb.waiting (by rw [hl]; rfl)
  punctual := hb.punctual
  kept _ := hb.kept (by rw [hl]; rfl)
  stopped h := nomatch h

/-- A task is sent: it is the last to wait, or late. -/
theorem send (hb : Book j l halted late) (ha : l.phase.isAlive) (t : Task) :
    Book (.queued l.engine t :: j) (l.send (.run t)) halted
      (if halted then late ++ [t] else late) := by
  have hsend : l.send (.run t) = { l with queue := l.queue ++ [.run t] } := if_pos ha
  rw [hsend]
  obtain ⟨ts, hts, hq⟩ := hb.waiting ha
  refine ⟨fun _ => ?_, fun hopen => ?_, fun halive => ?_, fun hstopped => ?_⟩
  · cases halted with
    | false =>
      refine ⟨ts ++ [t], ?_, ?_⟩
      · simp [hts, executed, hb.punctual rfl]
      · simp [hq]
    | true =>
      refine ⟨ts, ?_, ?_⟩
      · simp [hts, executed]
      · simp [hq]
  · simpa [hopen] using hb.punctual hopen
  · simpa using hb.kept halive
  · have hdead : l.phase = .stopped := hstopped
    simp [hdead, Phase.isAlive] at ha

/-- The flag has nothing to do with the book. -/
theorem shut (hb : Book j l halted late) : Book j l.shut halted late :=
  ⟨hb.waiting, hb.punctual, hb.kept, hb.stopped⟩

/-- The stop is sent: nothing is behind it yet. -/
theorem halt (hb : Book j l false late) : Book j (l.send .stop) true late := by
  obtain rfl := hb.punctual rfl
  unfold Loop.send
  split
  · next halive =>
    refine ⟨fun _ => ?_, nofun, hb.kept, fun hs => ?_⟩
    · obtain ⟨ts, hts, hq⟩ := hb.waiting halive
      exact ⟨ts, hts, by simp [hq]⟩
    · exact nomatch (hb.stopped hs).1
  · next hdead =>
    exact ⟨fun halive => absurd halive hdead, nofun, hb.kept, fun hs => nomatch (hb.stopped hs).1⟩

/-- A stopped loop takes a task in, late. -/
theorem sink (hb : Book j l halted late) (hs : l.phase = .stopped) (t : Task) :
    Book (.queued l.engine t :: j) l halted (late ++ [t]) := by
  obtain ⟨hhalted, hall, hretires⟩ := hb.stopped hs
  have hdead : ¬l.phase.isAlive := by simp [hs, Phase.isAlive]
  refine ⟨fun ha => absurd ha hdead, fun hopen => ?_, fun ha => absurd ha hdead, fun _ => ?_⟩
  · simp [hhalted] at hopen
  · exact ⟨hhalted, by simp [hall, executed], hretires.queued t⟩

/-- The next task of a loop is the first that was accepted and not run. -/
theorem next (hb : Book j l halted late) (halive : l.phase.isAlive) {t : Task}
    {rest : List Message} (hq : l.queue = .run t :: rest) :
    ∃ ts, accepted l.engine j = executed l.engine j ++ t :: ts ++ late ∧
      rest = ts.map .run ++ if halted then .stop :: late.map .run else [] := by
  obtain ⟨ts, hts, hqueue⟩ := hb.waiting halive
  cases ts with
  | nil =>
    -- a queue in which no task is due begins with the stop, if it is not empty
    rw [hq] at hqueue
    revert hqueue
    cases halted <;> simp
  | cons t' ts =>
    rw [hq, List.map_cons, List.cons_append] at hqueue
    obtain ⟨ht, hrest⟩ := List.cons.inj hqueue
    obtain rfl := Message.run.inj ht
    exact ⟨ts, hts, hrest⟩

theorem take (hb : Book j l halted late) (hidle : l.phase = .idle) {t : Task}
    {rest : List Message} (hq : l.queue = .run t :: rest) (v : View) :
    Book (.ran l.engine t :: j) { l with phase := .busy, queue := rest, view := v } halted
      late := by
  have halive : l.phase.isAlive := by rw [hidle]; rfl
  refine ⟨fun _ => ?_, hb.punctual, fun _ => by simpa using hb.kept halive, nofun⟩
  obtain ⟨ts, hts, hrest⟩ := hb.next halive hq
  exact ⟨ts, by simp [accepted, hts], hrest⟩

/-- A loop that comes to the stop has run everything it accepted, but for what
is late. -/
theorem stop (hb : Book j l halted late) (hidle : l.phase = .idle) {rest : List Message}
    (hq : l.queue = .stop :: rest) :
    Book (.dropped l.engine :: j) (l.finish .stopped) halted late := by
  have halive : l.phase.isAlive := by rw [hidle]; rfl
  obtain ⟨ts, hts, hqueue⟩ := hb.waiting halive
  obtain ⟨rfl, hhalted⟩ : ts = [] ∧ halted := by
    rw [hq] at hqueue
    cases ts with
    | nil =>
      refine ⟨rfl, ?_⟩
      revert hqueue
      cases halted <;> simp
    | cons t ts => simp at hqueue
  refine ⟨nofun, hb.punctual, nofun,
    fun _ => ⟨hhalted, ?_, [], j, rfl, rfl, by simp, hb.kept halive⟩⟩
  simpa [Loop.finish, accepted, executed] using hts

/-- What ends in another way has nothing more to account for. -/
theorem abandon (hb : Book j l halted late) {j' : List Entry} {phase : Phase}
    (h : phase = .refused ∨ phase = .crashed) : Book j' (l.finish phase) halted late := by
  rcases h with rfl | rfl <;> exact ⟨nofun, hb.punctual, nofun, nofun⟩

end Book

/-! ## how a loop goes on -/

/-- What a loop can become: it keeps its engine, it is not opened again, and
once it has ended it stays so. -/
structure Onward (l l' : Loop) : Prop where
  engine : l'.engine = l.engine
  flag : l.closed → l'.closed
  closed : l.isClosed → l'.isClosed
  ended : l.phase.isAlive = false → l'.phase = l.phase

theorem eq_of_rested {a b : Phase} (h : a.rested = b.rested) (hb : b.isAlive = false) : a = b := by
  cases a <;> cases b <;> simp_all [Phase.rested, Phase.isAlive]

namespace Onward

variable {l : Loop}

theorem refl (l : Loop) : Onward l l :=
  ⟨rfl, id, id, fun _ => rfl⟩

theorem trans {l' l'' : Loop} (h : Onward l l') (h' : Onward l' l'') : Onward l l'' where
  engine := h'.engine.trans h.engine
  flag := h'.flag ∘ h.flag
  closed := h'.closed ∘ h.closed
  ended hl := (h'.ended (by rw [h.ended hl, hl])).trans (h.ended hl)

theorem touch {phase : Phase} (h : phase.rested = l.phase.rested) (v : View)
    (ticker : Option Ticker) : Onward l { l with phase := phase, view := v, ticker := ticker } where
  engine := rfl
  flag := id
  closed hc := by simpa only [Loop.isClosed, Loop.accepts, isAlive_of_rested h] using hc
  ended hl := eq_of_rested h hl

/-- A loop that is alive goes on in some other way. -/
theorem busy (hl : l.phase.isAlive) {phase : Phase} (h : phase.isAlive) (queue : List Message)
    (v : View) (ticker : Option Ticker) :
    Onward l { l with phase := phase, queue := queue, view := v, ticker := ticker } where
  engine := rfl
  flag := id
  closed hc := by simpa only [Loop.isClosed, Loop.accepts, h, hl] using hc
  ended hend := by simp [hl] at hend

theorem finish (hl : l.phase.isAlive) {phase : Phase} (h : phase.isAlive = false) :
    Onward l (l.finish phase) where
  engine := rfl
  flag := id
  closed _ := by simp [Loop.isClosed, Loop.accepts, Loop.finish, h]
  ended hend := by simp [hl] at hend

theorem send (l : Loop) (m : Message) : Onward l (l.send m) := by
  unfold Loop.send
  split
  · exact ⟨rfl, id, id, fun _ => rfl⟩
  · exact .refl l

theorem shut (l : Loop) : Onward l l.shut where
  engine := rfl
  flag _ := rfl
  closed _ := rfl
  ended _ := rfl

theorem push (l : Loop) (t : Task) : Onward l (l.push t) := by
  unfold Loop.push
  split
  · exact .refl l
  · exact .send l _

theorem close (l : Loop) : Onward l l.close := by
  unfold Loop.close
  split
  · exact .refl l
  · exact (shut l).trans (.send _ _)

end Onward

/-! ## the books of an instance -/

/-- Every loop has an engine and an account of its own, and the books are in
order.  A loop whose flag is raised was sent the stop, unless it is listed in
`raised`. -/
structure Kept (x : Instance) (raised : List Nat := []) (late : Nat → List Task := fun _ => []) :
    Prop where
  distinct : ∀ i k l m, x.loop? i = some l → x.loop? k = some m → l.engine = m.engine → i = k
  numbered : ∀ i l, x.loop? i = some l → l.engine ≤ x.attempts
  fresh : ∀ e, x.attempts < e → ∀ d ∈ x.journal, d.account? ≠ some e
  single : raised.Nodup
  flagged : ∀ i ∈ raised, x.isShut i
  spared : ∀ i, x.loop? i = none → late i = []
  book : ∀ i l, x.loop? i = some l →
    Book x.journal l (!raised.contains i && l.closed) (late i)

/-- Every loop of `x` has gone on in `y`, and one that was closed has accepted
nothing more. -/
def Continues (x y : Instance) : Prop :=
  ∀ i l, x.loop? i = some l → ∃ l', y.loop? i = some l' ∧ Onward l l' ∧
    (l.isClosed → accepted l.engine y.journal = accepted l.engine x.journal)

theorem Continues.refl (x : Instance) : Continues x x :=
  fun _ l hl => ⟨l, hl, .refl l, fun _ => rfl⟩

theorem Continues.trans {x y z : Instance} (h : Continues x y) (h' : Continues y z) :
    Continues x z := by
  intro i l hl
  obtain ⟨m, hm, hgo, ha⟩ := h i l hl
  obtain ⟨n, hn, hgo', ha'⟩ := h' i m hm
  refine ⟨n, hn, hgo.trans hgo', fun hc => ?_⟩
  have hlate := ha' (hgo.closed hc)
  rw [hgo.engine] at hlate
  exact hlate.trans (ha hc)

theorem Continues.of_eq {x y : Instance} (hl : y.loops = x.loops)
    (hj : ∀ e, accepted e y.journal = accepted e x.journal) : Continues x y :=
  fun _ l h => ⟨l, by rwa [loop?, hl], .refl l, fun _ => hj _⟩

theorem kept_ofSettings (s : BrowserSettings) : Kept (ofSettings s) := by
  constructor <;> simp [ofSettings, loop?]

theorem isShut_eq {x : Instance} {i : Nat} {l : Loop} (hl : x.loop? i = some l) :
    x.isShut i = l.closed := by
  simp only [isShut, hl, Option.any_some]

theorem submitTo_of_accepts {x : Instance} {i : Nat} {l : Loop} (hl : x.loop? i = some l)
    (ha : l.accepts) (t : Task) :
    x.submitTo i t = (true, (x.setLoop i (l.push t)).note (.queued l.engine t)) := by
  simp only [submitTo_eq, hl, ha, if_true]

namespace Kept

variable {x y : Instance} {raised : List Nat} {late : Nat → List Task}

/-- Nothing is entered in any account. -/
theorem frame (es : List Entry) (hx : Kept x raised late) (hl : y.loops = x.loops)
    (ha : x.attempts ≤ y.attempts) (hj : y.journal = es ++ x.journal)
    (hes : ∀ d ∈ es, d.account? = none) : Kept y raised late ∧ Continues x y := by
  have hloop (i : Nat) : y.loop? i = x.loop? i := by rw [loop?, hl, loop?]
  have hother (e : Nat) : ∀ d ∈ es, d.account? ≠ some e := fun d hd => by simp [hes d hd]
  refine ⟨⟨?_, ?_, ?_, hx.single, ?_, ?_, ?_⟩,
    .of_eq hl fun e => by rw [hj, accepted_append (hother e)]⟩
  · intro i k l m hil hkm
    exact hx.distinct i k l m (hloop i ▸ hil) (hloop k ▸ hkm)
  · intro i l hil
    exact (hx.numbered i l (hloop i ▸ hil)).trans ha
  · intro e he d hd
    rw [hj] at hd
    rcases List.mem_append.1 hd with hd | hd
    · exact hother e d hd
    · exact hx.fresh e (by omega) d hd
  · intro i hi
    rw [isShut, hloop]
    exact hx.flagged i hi
  · intro i hi
    exact hx.spared i (hloop i ▸ hi)
  · intro i l hil
    rw [hj]
    exact (hx.book i l (hloop i ▸ hil)).append es (hother _)

/-- One loop changes, entries are made in its account alone, and what is under
way changes at this loop alone. -/
theorem replace (es : List Entry) {i : Nat} {l l' : Loop} {raised' : List Nat}
    {late' : Nat → List Task} (hx : Kept x raised late) (hl : x.loop? i = some l)
    (hgo : Onward l l') (hy : y.loops = x.loops.set i l') (ha : y.attempts = x.attempts)
    (hj : y.journal = es ++ x.journal)
    (hes : ∀ d ∈ es, ∀ e, d.account? = some e → e = l.engine)
    (hsingle : raised'.Nodup) (hself : i ∈ raised' → l'.closed)
    (hother : ∀ k ≠ i, raised'.contains k = raised.contains k ∧ late' k = late k)
    (hbook : Book y.journal l' (!raised'.contains i && l'.closed) (late' i)) :
    Kept y raised' late' := by
  have hloop (k : Nat) : y.loop? k = (x.setLoop i l').loop? k := by
    rw [loop?, hy, loop?, Instance.setLoop]
  have hset (k : Nat) : y.loop? k = if i = k then some l' else x.loop? k :=
    (hloop k).trans (loop?_setLoop hl l' k)
  -- the engine of each loop is what it was
  have hold {k : Nat} {m : Loop} (hm : y.loop? k = some m) :
      ∃ m', x.loop? k = some m' ∧ m.engine = m'.engine := by
    rw [hloop] at hm
    rcases setLoop_cases hl hm with ⟨rfl, rfl⟩ | ⟨-, hm⟩
    · exact ⟨l, hl, hgo.engine⟩
    · exact ⟨m, hm, rfl⟩
  refine ⟨?_, ?_, ?_, hsingle, ?_, ?_, ?_⟩
  · intro k k' m m' hm hm' heq
    obtain ⟨n, hn, hmn⟩ := hold hm
    obtain ⟨n', hn', hmn'⟩ := hold hm'
    exact hx.distinct k k' n n' hn hn' (by rw [← hmn, ← hmn', heq])
  · intro k m hm
    obtain ⟨n, hn, hmn⟩ := hold hm
    rw [hmn, ha]
    exact hx.numbered k n hn
  · intro e hlt d hd hde
    rw [ha] at hlt
    rw [hj] at hd
    rcases List.mem_append.1 hd with hd | hd
    · have := hx.numbered i l hl
      have := hes d hd e hde
      omega
    · exact hx.fresh e hlt d hd hde
  · intro k hk
    unfold isShut
    rw [hset]
    by_cases hik : i = k
    · rw [if_pos hik, Option.any_some]
      exact hself (hik ▸ hk)
    · have hwas : raised.contains k := by
        rw [← (hother k (Ne.symm hik)).1]
        exact List.contains_iff_mem.2 hk
      rw [if_neg hik]
      exact hx.flagged k (List.contains_iff_mem.1 hwas)
  · intro k hk
    rw [hset] at hk
    by_cases hik : i = k
    · simp [hik] at hk
    · rw [if_neg hik] at hk
      rw [(hother k (Ne.symm hik)).2]
      exact hx.spared k hk
  · intro k m hm
    rw [hloop] at hm
    rcases setLoop_cases hl hm with ⟨rfl, rfl⟩ | ⟨hik, hm⟩
    · exact hbook
    · rw [hj, (hother k (Ne.symm hik)).1, (hother k (Ne.symm hik)).2]
      refine (hx.book k m hm).append es fun d hd hdm => ?_
      exact hik (hx.distinct i k l m hl hm (hes d hd _ hdm).symm)

/-- One loop changes; the others are as they were. -/
theorem beside (es : List Entry) {i : Nat} {l l' : Loop} (hx : Kept x raised late)
    (hl : x.loop? i = some l) (hy : y.loops = x.loops.set i l') (hj : y.journal = es ++ x.journal)
    (hes : ∀ d ∈ es, ∀ e, d.account? = some e → e = l.engine) {k : Nat} {m : Loop}
    (hm : x.loop? k = some m) :
    if i = k then m = l ∧ y.loop? k = some l'
    else y.loop? k = some m ∧ accepted m.engine y.journal = accepted m.engine x.journal := by
  have hset : y.loop? k = if i = k then some l' else x.loop? k := by
    have hsame : y.loop? k = (x.setLoop i l').loop? k := by rw [loop?, hy, loop?, Instance.setLoop]
    rw [hsame, loop?_setLoop hl]
  split
  · next hik =>
    subst hik
    rw [if_pos rfl] at hset
    exact ⟨Option.some.inj (hm.symm.trans hl), hset⟩
  · next hik =>
    rw [if_neg hik] at hset
    refine ⟨hset.trans hm, ?_⟩
    rw [hj]
    refine accepted_append fun d hd hdm => ?_
    exact hik (hx.distinct i k l m hl hm (hes d hd _ hdm).symm)

/-- One loop changes and goes on. -/
theorem continues (es : List Entry) {i : Nat} {l l' : Loop} (hx : Kept x raised late)
    (hl : x.loop? i = some l) (hgo : Onward l l') (hy : y.loops = x.loops.set i l')
    (hj : y.journal = es ++ x.journal)
    (hes : ∀ d ∈ es, ∀ e, d.account? = some e → e = l.engine)
    (hclosed : l.isClosed → accepted l.engine y.journal = accepted l.engine x.journal) :
    Continues x y := by
  intro k m hm
  have hcases := hx.beside es hl hy hj hes hm
  split at hcases
  · obtain ⟨rfl, hm'⟩ := hcases
    exact ⟨l', hm', hgo, hclosed⟩
  · exact ⟨m, hcases.1, .refl m, fun _ => hcases.2⟩

/-- One loop changes, and entries are made in its account alone. -/
theorem setLoop (es : List Entry) {i : Nat} {l l' : Loop} (hx : Kept x raised late)
    (hl : x.loop? i = some l) (hgo : Onward l l') (hy : y.loops = x.loops.set i l')
    (ha : y.attempts = x.attempts) (hj : y.journal = es ++ x.journal)
    (hes : ∀ d ∈ es, ∀ e, d.account? = some e → e = l.engine)
    (hbook : Book y.journal l' (!raised.contains i && l'.closed) (late i))
    (hclosed : l.isClosed → accepted l.engine y.journal = accepted l.engine x.journal) :
    Kept y raised late ∧ Continues x y := by
  have hself (hi : i ∈ raised) : l'.closed :=
    hgo.flag ((isShut_eq hl).symm.trans (hx.flagged i hi))
  exact ⟨hx.replace es hl hgo hy ha hj hes hx.single hself (fun _ _ => ⟨rfl, rfl⟩) hbook,
    hx.continues es hl hgo hy hj hes hclosed⟩

theorem note (hx : Kept x raised late) {d : Entry} (hd : d.account? = none) :
    Kept (x.note d) raised late ∧ Continues x (x.note d) :=
  hx.frame [d] rfl (Nat.le_refl _) rfl (by simpa using hd)

theorem trans {z : Instance} (h : Kept y raised late ∧ Continues x y)
    (h' : Kept y raised late → Kept z raised late ∧ Continues y z) :
    Kept z raised late ∧ Continues x z :=
  ⟨(h' h.1).1, h.2.trans (h' h.1).2⟩

theorem openLoop (hx : Kept x raised late) (k : Kind) :
    Kept (x.openLoop k) raised late ∧ Continues x (x.openLoop k) := by
  have hlength {i : Nat} {l : Loop} (hl : x.loop? i = some l) : i ≠ x.loops.length :=
    Nat.ne_of_lt (List.getElem?_eq_some_iff.1 hl).1
  have hlast : x.loop? x.loops.length = none := List.getElem?_eq_none (Nat.le_refl _)
  refine ⟨⟨?_, ?_, ?_, hx.single, ?_, ?_, ?_⟩, ?_⟩
  · intro i i' l l' hl hl' heq
    rcases openLoop_cases hl with ⟨hi, rfl⟩ | hl <;> rcases openLoop_cases hl' with ⟨hi', rfl⟩ | hl'
    · rw [hi, hi']
    · have := hx.numbered i' l' hl'
      simp only at heq
      omega
    · have := hx.numbered i l hl
      simp only at heq
      omega
    · exact hx.distinct i i' l l' hl hl' heq
  · intro i l hl
    rcases openLoop_cases hl with ⟨-, rfl⟩ | hl
    · exact Nat.le_refl _
    · exact (hx.numbered i l hl).trans (Nat.le_succ _)
  · intro e he d hd
    have he' : x.attempts + 1 < e := he
    rcases List.mem_cons.1 hd with rfl | hd
    · simp [Entry.account?]
    · exact hx.fresh e (by omega) d hd
  · intro i hi
    have hshut := hx.flagged i hi
    unfold isShut at hshut ⊢
    rw [loop?_openLoop]
    split
    · next hi => simp [hi, hlast] at hshut
    · exact hshut
  · intro i hi
    rw [loop?_openLoop] at hi
    split at hi
    · cases hi
    · exact hx.spared i hi
  · intro i l hl
    rcases openLoop_cases hl with ⟨rfl, rfl⟩ | hl
    · simp only [Bool.and_false, hx.spared _ hlast]
      exact (Book.fresh (hx.fresh _ (Nat.lt_succ_self _)) k).note (by simp [Entry.account?])
    · exact (hx.book i l hl).note (by simp [Entry.account?])
  · intro i l hl
    refine ⟨l, ?_, .refl l, fun _ => rfl⟩
    rw [loop?_openLoop, if_neg (hlength hl), hl]

theorem submitTo (hx : Kept x raised late) (i : Nat) (t : Task) :
    Kept (x.submitTo i t).2 raised late ∧ Continues x (x.submitTo i t).2 := by
  rw [submitTo_eq]
  split
  · exact ⟨hx, .refl x⟩
  · next l hl =>
    split
    · next ha =>
      obtain ⟨hopen, halive⟩ : l.closed = false ∧ l.phase.isAlive := by
        simpa [Loop.accepts] using ha
      have hbook := (hx.book i l hl).send halive t
      have hsame : (l.push t).closed = false := by rw [Loop.push_eq, if_pos ha, hopen]
      refine hx.setLoop [.queued l.engine t] hl (.push l t) rfl rfl rfl (by simp [Entry.account?])
        ?_ (by simp [Loop.isClosed, ha])
      rw [hopen, Bool.and_false] at hbook
      rw [hsame, Loop.push_of_open hopen, Bool.and_false]
      exact hbook
    · exact ⟨hx, .refl x⟩

theorem closeLoop (hx : Kept x raised late) (i : Nat) :
    Kept (x.closeLoop i) raised late ∧ Continues x (x.closeLoop i) := by
  unfold Instance.closeLoop
  split
  · exact ⟨hx, .refl x⟩
  · next l hl =>
    refine hx.setLoop [] hl (.close l) rfl rfl rfl (by simp) ?_ fun _ => rfl
    have hbook := hx.book i l hl
    cases hopen : l.closed with
    | true =>
      rw [Loop.close_of_closed hopen]
      exact hbook
    | false =>
      have hnot : raised.contains i = false := by
        refine Bool.eq_false_iff.2 fun hi => ?_
        have hshut := hx.flagged i (List.contains_iff_mem.1 hi)
        rw [isShut_eq hl, hopen] at hshut
        cases hshut
      have hclosed : (l.shut.send .stop).closed = true := (Onward.send l.shut .stop).flag rfl
      rw [hopen, Bool.and_false] at hbook
      rw [Loop.close_of_open hopen, hclosed, hnot]
      exact hbook.shut.halt

end Kept

/-! ## beats -/

section

variable {x y : Instance} {raised : List Nat} {late : Nat → List Task}

theorem Beat.kept {p : Call → Bool} (h : Beat p x y) (hx : Kept x raised late) :
    Kept y raised late ∧ Continues x y := by
  cases h with
  | note he =>
    refine hx.note ?_
    revert he
    rename_i e
    cases e <;> simp [Entry.isAside, Entry.account?]
  | tell _ => exact hx.frame [_] rfl (Nat.le_refl _) rfl (by simp [Entry.account?])
  | aside _ _ _ _ _ _ _ _ => exact hx.frame [] rfl (Nat.le_refl _) rfl (by simp)
  | touch hl phase v ticker hphase =>
    exact hx.setLoop [] hl (.touch hphase v ticker) rfl rfl rfl (by simp)
      ((hx.book _ _ hl).touch hphase v ticker) fun _ => rfl
  | attempt => exact hx.frame [] rfl (Nat.le_succ _) rfl (by simp)
  | openLoop k => exact hx.openLoop k
  | refuse hl hb =>
    exact hx.setLoop [] hl (.finish (by rw [hb]; rfl) rfl) rfl rfl rfl (by simp)
      ((hx.book _ _ hl).abandon (.inl rfl)) fun _ => rfl
  | @begin i l _ _ _ hl hb ticker =>
    have hready := (hx.book _ _ hl).ready hb ticker
    exact hx.setLoop [.began l.engine x.machine.begin.1] hl
      (.busy (by rw [hb]; rfl) rfl l.queue l.view ticker) rfl rfl rfl
      (by simp [Entry.account?]) (hready.note (by simp [Entry.account?])) fun _ => rfl
  | request _ _ _ => exact hx.frame [_] rfl (Nat.le_refl _) rfl (by simp [Entry.account?])
  | confirm s => exact hx.frame [] rfl (Nat.le_refl _) rfl (by simp)
  | submit _ => exact hx.submitTo _ _
  | @hide i h _ _ =>
    have hflip : Kept (x.setFlag h) raised late ∧ Continues x (x.setFlag h) :=
      hx.frame [.flipped h] rfl (Nat.le_refl _) rfl (by simp [Entry.account?])
    exact Kept.trans hflip fun hy => hy.submitTo i _
  | @giveUp i _ =>
    have hend : Kept (x.endSession i) raised late ∧ Continues x (x.endSession i) :=
      hx.frame [.ended (x.engineOf i)] rfl (Nat.le_refl _) rfl (by simp [Entry.account?])
    exact Kept.trans hend fun hz => hz.closeLoop i
  | @take i l t rest hl hidle hq _ =>
    exact hx.setLoop [.ran l.engine t] hl (.busy (by rw [hidle]; rfl) rfl rest l.view l.ticker)
      rfl rfl rfl (by simp [Entry.account?]) ((hx.book i l hl).take hidle hq l.view) fun _ => rfl
  | @takeFlag i l h rest hl hidle hq v =>
    have htake := ((hx.book i l hl).take hidle hq v).append
      [.telling x.tellings (.hidden h), .viewed l.engine v] (by simp [Entry.account?])
    exact hx.setLoop [.telling x.tellings (.hidden h), .viewed l.engine v,
      .ran l.engine (.visibility h)] hl (.busy (by rw [hidle]; rfl) rfl rest v l.ticker)
      rfl rfl rfl (by simp [Entry.account?]) htake fun _ => rfl
  | @stop i l rest hl hidle hq =>
    rw [endLoop_eq hl]
    exact hx.setLoop [.dropped l.engine] hl (.finish (by rw [hidle]; rfl) rfl) rfl rfl rfl
      (by simp [Entry.account?]) ((hx.book i l hl).stop hidle hq) fun _ => rfl
  | @crash i l hl hbusy =>
    rw [endLoop_eq hl]
    exact hx.setLoop [.dropped l.engine] hl (.finish (by rw [hbusy]; rfl) rfl) rfl rfl rfl
      (by simp [Entry.account?]) ((hx.book _ _ hl).abandon (.inr rfl)) fun _ => rfl

/-- Beats keep the books, and what is closed stays so. -/
theorem Beats.kept {p : Call → Bool} (h : Beats p x y) (hx : Kept x raised late) :
    Kept y raised late ∧ Continues x y := by
  induction h with
  | refl => exact ⟨hx, .refl x⟩
  | tail _ hlast ih => exact Kept.trans ih hlast.kept

end

end BrowserHost.Instance
