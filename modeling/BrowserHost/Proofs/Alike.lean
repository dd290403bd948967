import BrowserHost.Proofs.Run

/-!
# BrowserHost.Proofs.Alike

Two instances that differ in nothing but what one closed loop has done.  No
call reads the queue, the phase or the view of a loop that has no session, so
two such instances stay alike as long as both go through the same calls and
the same turns of the other loops.

* `Alike`: the same but for one closed loop;
* `call_alike`: a call keeps two instances alike, however deep calls nest;
* `turn_alike`: so does every turn of a caller or of another loop.
-/

namespace BrowserHost.Instance

open Engine Hub

/-! ## instances that are alike -/

/-- The notice that an entry tells. -/
def Entry.notice? : Entry → Option Notice
  | .telling _ n => some n
  | _ => none

/-- All that was told, newest first. -/
def notices (j : List Entry) : List Notice :=
  j.filterMap Entry.notice?

/-- The two instances are the same but for what loop `a` has done, which is
closed and has no session.  Frames may differ, and what the journal says
besides notices. -/
structure Alike (a : Nat) (x y : Instance) : Prop where
  rest : y = { x with loops := y.loops, frames := y.frames, journal := y.journal }
  count : y.loops.length = x.loops.length
  loop : ∀ i, i ≠ a → y.loop? i = x.loop? i
  shut : ∃ l, x.loop? a = some l ∧ l.closed
  shut' : ∃ l, y.loop? a = some l ∧ l.closed
  undriven : x.dispatcher ≠ some a
  unowned : x.owned ≠ some a
  notices : notices y.journal = notices x.journal

/-- What calls do keeps instances alike. -/
def KeepsAlike (a : Nat) (answer : Caller) : Prop :=
  ∀ c x y, Alike a x y → Alike a (answer c x).2 (answer c y).2

namespace Alike

variable {a : Nat} {x y : Instance}

theorem exists_eq (h : Alike a x y) :
    ∃ ls f j, y = { x with loops := ls, frames := f, journal := j } :=
  ⟨_, _, _, h.rest⟩

theorem symm (h : Alike a x y) : Alike a y x := by
  have hrest := h.rest
  obtain ⟨ls, f, j, rfl⟩ := h.exists_eq
  exact ⟨rfl, h.count.symm, fun i hi => (h.loop i hi).symm, h.shut', h.shut, h.undriven,
    h.unowned, h.notices.symm⟩

theorem ne_of_dispatcher (h : Alike a x y) {i : Nat} (hi : x.dispatcher = some i) : i ≠ a := by
  rintro rfl
  exact h.undriven hi

theorem ne_of_owned (h : Alike a x y) {i : Nat} (hi : x.owned = some i) : i ≠ a := by
  rintro rfl
  exact h.unowned hi

theorem lt_count (h : Alike a x y) : a < x.loops.length := by
  obtain ⟨l, hl, -⟩ := h.shut
  exact (List.getElem?_eq_some_iff.1 hl).1

theorem observers (h : Alike a x y) : y.observers = x.observers := by
  rw [h.rest]

theorem hub (h : Alike a x y) : y.hub = x.hub := by
  rw [h.rest]

theorem machine (h : Alike a x y) : y.machine = x.machine := by
  rw [h.rest]

theorem tellings (h : Alike a x y) : y.tellings = x.tellings := by
  rw [h.rest]

theorem dispatcher (h : Alike a x y) : y.dispatcher = x.dispatcher := by
  rw [h.rest]

theorem reach (h : Alike a x y) : y.reach = x.reach := by
  unfold Instance.reach
  rw [h.observers]

theorem backlog (h : Alike a x y) {i : Nat} (hi : i ≠ a) : y.backlog i = x.backlog i := by
  unfold Instance.backlog
  rw [h.loop i hi]

/-! ## changes of both -/

/-- A change of both that has nothing to do with loops, frames and the
journal. -/
theorem update {f : Instance → Instance} (h : Alike a x y)
    (hf : ∀ z ls fr j, f { z with loops := ls, frames := fr, journal := j } =
      { f z with loops := ls, frames := fr, journal := j })
    (hd : (f x).dispatcher ≠ some a) (ho : (f x).owned ≠ some a) : Alike a (f x) (f y) := by
  have hkept (z : Instance) : f z = { f z with
      loops := z.loops, frames := z.frames, journal := z.journal } :=
    hf z z.loops z.frames z.journal
  have hloops (z : Instance) : (f z).loops = z.loops := by rw [hkept z]
  have hjournal (z : Instance) : (f z).journal = z.journal := by rw [hkept z]
  have hloop (z : Instance) (i : Nat) : (f z).loop? i = z.loop? i := by
    unfold loop?
    rw [hloops]
  constructor
  · obtain ⟨ls, fr, j, rfl⟩ := h.exists_eq
    rw [hf]
  · rw [hloops, hloops, h.count]
  · intro i hi
    rw [hloop, hloop, h.loop i hi]
  · rw [hloop]
    exact h.shut
  · rw [hloop]
    exact h.shut'
  · exact hd
  · exact ho
  · rw [hjournal, hjournal, h.notices]

theorem noteBoth (h : Alike a x y) {e e' : Entry} (he : e'.notice? = e.notice?) :
    Alike a (x.note e) (y.note e') := by
  have hnotices : Instance.notices (e' :: y.journal) = Instance.notices (e :: x.journal) := by
    unfold Instance.notices
    rw [List.filterMap_cons, List.filterMap_cons, he]
    have hrest := h.notices
    unfold Instance.notices at hrest
    rw [hrest]
  obtain ⟨ls, f, j, rfl⟩ := h.exists_eq
  exact ⟨rfl, h.count, h.loop, h.shut, h.shut', h.undriven, h.unowned, hnotices⟩

theorem note (h : Alike a x y) (e : Entry) : Alike a (x.note e) (y.note e) :=
  h.noteBoth rfl

/-- Frames may differ. -/
theorem withFrames (h : Alike a x y) (f g : FrameCounter) :
    Alike a { x with frames := f } { y with frames := g } := by
  obtain ⟨ls, f', j, rfl⟩ := h.exists_eq
  exact ⟨rfl, h.count, h.loop, h.shut, h.shut', h.undriven, h.unowned, h.notices⟩

/-- Another loop changes in the same way. -/
theorem setLoop (h : Alike a x y) {i : Nat} (hi : i ≠ a) (l : Loop) :
    Alike a (x.setLoop i l) (y.setLoop i l) := by
  have hkept (z : Instance) : (z.setLoop i l).loop? a = z.loop? a :=
    List.getElem?_set_ne hi
  have hloop (j : Nat) (hj : j ≠ a) : (y.setLoop i l).loop? j = (x.setLoop i l).loop? j := by
    have hcount := h.count
    have hother := h.loop j hj
    unfold loop? at hother
    unfold loop? Instance.setLoop
    by_cases hij : i = j
    · subst hij
      rw [List.getElem?_set, List.getElem?_set, if_pos rfl, if_pos rfl, hcount]
    · rw [List.getElem?_set_ne hij, List.getElem?_set_ne hij, hother]
  have hcount : (y.setLoop i l).loops.length = (x.setLoop i l).loops.length := by
    simp only [Instance.setLoop, List.length_set, h.count]
  have hshut := h.shut
  have hshut' := h.shut'
  rw [← hkept x] at hshut
  rw [← hkept y] at hshut'
  obtain ⟨ls, f, j, rfl⟩ := h.exists_eq
  exact ⟨rfl, hcount, hloop, hshut, hshut', h.undriven, h.unowned, h.notices⟩

/-! ## changes of one -/

/-- The loop does something, and stays closed. -/
theorem setLoop_left (h : Alike a x y) {l : Loop} (hl : l.closed) :
    Alike a (x.setLoop a l) y := by
  have hset (j : Nat) : (x.setLoop a l).loop? j = if a = j then some l else x.loop? j := by
    obtain ⟨m, hm, -⟩ := h.shut
    exact loop?_setLoop hm l j
  have hcount : y.loops.length = (x.setLoop a l).loops.length := by
    simp only [Instance.setLoop, List.length_set, h.count]
  have hloop (j : Nat) (hj : j ≠ a) : y.loop? j = (x.setLoop a l).loop? j := by
    rw [hset, if_neg hj.symm, h.loop j hj]
  have hshut : ∃ m, (x.setLoop a l).loop? a = some m ∧ m.closed :=
    ⟨l, by rw [hset, if_pos rfl], hl⟩
  obtain ⟨ls, f, j, rfl⟩ := h.exists_eq
  exact ⟨rfl, hcount, hloop, hshut, h.shut', h.undriven, h.unowned, h.notices⟩

theorem note_left (h : Alike a x y) {e : Entry} (he : e.notice? = none) :
    Alike a (x.note e) y := by
  have hnotices : Instance.notices y.journal = Instance.notices (e :: x.journal) := by
    rw [h.notices]
    unfold Instance.notices
    rw [List.filterMap_cons, he]
  obtain ⟨ls, f, j, rfl⟩ := h.exists_eq
  exact ⟨rfl, h.count, h.loop, h.shut, h.shut', h.undriven, h.unowned, hnotices⟩

theorem framesDisplayed_left (h : Alike a x y) (n : Nat) : Alike a (framesDisplayed n x) y := by
  induction n generalizing x with
  | zero => exact h
  | succ n ih =>
    refine ih ?_
    unfold frameDisplayed
    split
    · have hframes : Alike a { x with frames := (x.frames.frame x.now).2 } y := by
        have hboth := h.withFrames (x.frames.frame x.now).2 y.frames
        exact hboth
      exact hframes.note_left rfl
    · exact h

end Alike

/-! ## what is told -/

section

variable {a : Nat} {answer : Caller} {x y : Instance}

theorem frameDisplayed_alike (h : Alike a x y) : Alike a x.frameDisplayed y.frameDisplayed := by
  obtain ⟨ls, f, j, rfl⟩ := h.exists_eq
  unfold frameDisplayed
  simp only
  split
  · exact (h.withFrames _ _).note _
  · exact h

theorem framesDisplayed_alike (h : Alike a x y) (n : Nat) :
    Alike a (framesDisplayed n x) (framesDisplayed n y) := by
  induction n generalizing x y with
  | zero => exact h
  | succ n ih => exact ih (frameDisplayed_alike h)

theorem announce_alike (h : Alike a x y) (n : Notice) : Alike a (x.announce n) (y.announce n) := by
  unfold announce
  rw [h.tellings]
  exact (h.update (f := fun z => { z with tellings := x.tellings + 1 }) (fun _ _ _ _ => rfl)
    h.undriven h.unowned).note _

theorem conclude_alike (h : Alike a x y) (k : Nat) (n : Notice) :
    Alike a (x.conclude k n) (y.conclude k n) :=
  (h.update (f := fun z => { z with hub := z.hub.publish n }) (fun _ _ _ _ => rfl)
    h.undriven h.unowned).note _

theorem choose_alike (h : Alike a x y) (name : String) (n : Notice) :
    (y.choose name n).1 = (x.choose name n).1 ∧
      Alike a (x.choose name n).2 (y.choose name n).2 := by
  have hreactions : y.reactions? name = x.reactions? name := by
    unfold reactions?
    rw [h.observers]
  unfold choose
  rw [hreactions]
  cases x.reactions? name with
  | none => exact ⟨rfl, h⟩
  | some rs =>
    refine ⟨rfl, ?_⟩
    exact h.update (f := fun z => z.setReactions name (Reaction.choose n rs).2)
      (fun _ _ _ _ => rfl) h.undriven h.unowned

theorem react_alike (ha : KeepsAlike a answer) (h : Alike a x y) (name : String)
    (cs : List Call) : Alike a (react answer name x cs) (react answer name y cs) := by
  induction cs generalizing x y with
  | nil => exact h
  | cons c cs ih =>
    have hcall := ha c x y h
    exact ih (hcall.noteBoth rfl)

theorem deliver_alike (ha : KeepsAlike a answer) (h : Alike a x y) (k : Nat) (n : Notice)
    (o : ObserverId) : Alike a (deliver answer k n x o) (deliver answer k n y o) := by
  have hheard := h.note (.heard k o n)
  cases o with
  | quiet i => exact hheard
  | named name =>
    obtain ⟨hcalls, hchosen⟩ := choose_alike hheard name n
    simp only [deliver]
    rw [hcalls]
    exact react_alike ha hchosen name _

theorem deliverAll_alike (ha : KeepsAlike a answer) (h : Alike a x y) (k : Nat) (n : Notice)
    (os : List ObserverId) : Alike a (deliverAll answer k n x os) (deliverAll answer k n y os) := by
  induction os generalizing x y with
  | nil => exact h
  | cons o os ih => exact ih (deliver_alike ha h k n o)

theorem tell_alike (ha : KeepsAlike a answer) (h : Alike a x y) (n : Notice) :
    Alike a (tell answer n x) (tell answer n y) := by
  unfold tell
  rw [h.tellings, h.hub]
  exact conclude_alike (deliverAll_alike ha (announce_alike h n) _ n _) _ n

theorem report_alike (ha : KeepsAlike a answer) (h : Alike a x y) (r : Report) :
    Alike a (report answer x r) (report answer y r) := by
  have hurl (u : String) : Alike a { x with url := u } { y with url := u } :=
    h.update (f := fun z => { z with url := u }) (fun _ _ _ _ => rfl) h.undriven h.unowned
  cases r with
  | urlChanged u => exact tell_alike ha (hurl u) _
  | loadFinished u => exact tell_alike ha (hurl u) _
  | closureRequested => exact tell_alike ha h _
  | frames n => exact framesDisplayed_alike h n

/-! ## tasks of other loops -/

variable {i : Nat}

/-- A closed loop takes no task; any other takes it in both. -/
theorem submitTo_alike (h : Alike a x y) (i : Nat) (t : Task) :
    (y.submitTo i t).1 = (x.submitTo i t).1 ∧ Alike a (x.submitTo i t).2 (y.submitTo i t).2 := by
  by_cases hi : i = a
  · subst hi
    obtain ⟨l, hl, hc⟩ := h.shut
    obtain ⟨l', hl', hc'⟩ := h.shut'
    simp only [submitTo_eq, hl, hl', Loop.accepts, hc, hc']
    exact ⟨rfl, h⟩
  · simp only [submitTo_eq]
    rw [h.loop i hi]
    cases hl : x.loop? i with
    | none => exact ⟨rfl, h⟩
    | some l =>
      simp only
      split
      · exact ⟨rfl, (h.setLoop hi _).note _⟩
      · exact ⟨rfl, h⟩

theorem submit_alike (h : Alike a x y) (t : Task) :
    (y.submit t).1 = (x.submit t).1 ∧ Alike a (x.submit t).2 (y.submit t).2 := by
  unfold submit
  rw [h.dispatcher]
  cases x.dispatcher with
  | none => exact ⟨rfl, h⟩
  | some i => exact submitTo_alike h i t

theorem endLoop_alike (h : Alike a x y) (hi : i ≠ a) (phase : Phase) :
    Alike a (x.endLoop i phase) (y.endLoop i phase) := by
  unfold endLoop
  rw [h.loop i hi]
  cases x.loop? i with
  | none => exact h
  | some l => exact (h.setLoop hi _).note _

theorem setView_alike (h : Alike a x y) (hi : i ≠ a) (v : View) :
    Alike a (x.setView i v) (y.setView i v) := by
  unfold setView
  rw [h.loop i hi]
  cases x.loop? i with
  | none => exact h
  | some l => exact (h.setLoop hi _).note _

theorem block_alike (h : Alike a x y) (hi : i ≠ a) : Alike a (x.block i) (y.block i) := by
  unfold block
  rw [h.loop i hi]
  cases x.loop? i with
  | none => exact h
  | some l => exact h.setLoop hi _

theorem restLoop_alike (h : Alike a x y) (hi : i ≠ a) :
    Alike a (x.restLoop i) (y.restLoop i) := by
  unfold restLoop
  rw [h.loop i hi]
  cases x.loop? i with
  | none => exact h
  | some l => exact h.setLoop hi _

theorem load_alike (ha : KeepsAlike a answer) (h : Alike a x y) (hi : i ≠ a) (u : String) :
    Alike a (load answer x i u) (load answer y i u) := by
  unfold load
  rw [h.loop i hi]
  cases x.loop? i with
  | none => exact h
  | some l =>
    have hnote := h.note (.loaded l.engine u)
    simp only
    split
    · exact endLoop_alike hnote hi _
    · split
      · exact report_alike ha (report_alike ha hnote _) _
      · exact hnote

theorem confirm_alike (ha : KeepsAlike a answer) (h : Alike a x y) (s : State) :
    Alike a (confirm answer x s) (confirm answer y s) := by
  unfold confirm
  rw [h.machine]
  have hmachine := h.update (f := fun z => { z with machine := (x.machine.confirm s).2 })
    (fun _ _ _ _ => rfl) h.undriven h.unowned
  simp only
  split
  · exact tell_alike ha hmachine _
  · exact hmachine

theorem runTask_alike (ha : KeepsAlike a answer) (h : Alike a x y) (hi : i ≠ a) (t : Task) :
    Alike a (runTask answer x i t) (runTask answer y i t) := by
  have hhidden : y.hidden = x.hidden := by rw [h.rest]
  match t with
  | .work (.load u) => exact load_alike ha h hi u
  | .work (.view v) => exact setView_alike h hi v
  | .lifecycle s =>
    simp only [runTask]
    rw [hhidden]
    exact confirm_alike ha (setView_alike h hi _) s
  | .visibility v =>
    simp only [runTask]
    rw [h.machine]
    exact tell_alike ha (setView_alike h hi _) _
  | .report r => exact report_alike ha h r
  | .block => exact block_alike h hi

/-- Either both loops take a message, or neither does. -/
theorem stepLoop_alike (ha : KeepsAlike a answer) (h : Alike a x y) (hi : i ≠ a) :
    Option.Rel (Alike a) (stepLoop answer x i) (stepLoop answer y i) := by
  unfold stepLoop
  rw [h.loop i hi]
  cases x.loop? i with
  | none => exact .none
  | some l =>
    simp only
    split
    · exact .some (endLoop_alike h hi _)
    · next t rest _ _ =>
      have htake := (h.setLoop hi { l with phase := .busy, queue := rest }).note (.ran l.engine t)
      exact .some (restLoop_alike (runTask_alike ha htake hi t) hi)
    · exact .none

theorem drainLoop_alike (ha : KeepsAlike a answer) (h : Alike a x y) (hi : i ≠ a) (n : Nat) :
    Alike a (drainLoop answer i n x) (drainLoop answer i n y) := by
  induction n generalizing x y with
  | zero => exact h
  | succ n ih =>
    have hstep := stepLoop_alike ha h hi
    unfold drainLoop
    cases hx : stepLoop answer x i with
    | none =>
      rw [hx] at hstep
      cases hy : stepLoop answer y i with
      | none => exact h
      | some y' =>
        rw [hy] at hstep
        cases hstep
    | some x' =>
      rw [hx] at hstep
      cases hy : stepLoop answer y i with
      | none =>
        rw [hy] at hstep
        cases hstep
      | some y' =>
        rw [hy] at hstep
        cases hstep with
        | some h' => exact ih h'

theorem drain_alike (ha : KeepsAlike a answer) (h : Alike a x y) (hi : i ≠ a) :
    Alike a (drain answer i x) (drain answer i y) := by
  unfold drain
  rw [h.backlog hi, h.reach]
  exact drainLoop_alike ha h hi _

/-! ## clocks and blocks -/

theorem tickLoop_alike (h : Alike a x y) (hi : i ≠ a) :
    Alike a (x.tickLoop i) (y.tickLoop i) := by
  have hnow : y.now = x.now := by rw [h.rest]
  unfold tickLoop
  rw [h.loop i hi, hnow]
  cases x.loop? i with
  | none => exact h
  | some l => exact framesDisplayed_alike (h.setLoop hi _) _

theorem stall_alike (h : Alike a x y) (hi : i ≠ a) : Alike a (x.stall i) (y.stall i) := by
  unfold stall
  rw [h.loop i hi]
  cases x.loop? i with
  | none => exact h
  | some l =>
    simp only
    split
    · exact h.setLoop hi _
    · exact h

/-- To unblock the closed loop does not open it. -/
theorem unblock_left (h : Alike a x y) : Alike a (x.unblock a) y := by
  obtain ⟨l, hl, hc⟩ := h.shut
  unfold unblock
  simp only [hl]
  split
  · exact h.setLoop_left hc
  · exact h

theorem unblock_alike (h : Alike a x y) (i : Nat) : Alike a (x.unblock i) (y.unblock i) := by
  by_cases hi : i = a
  · subst hi
    exact (unblock_left (unblock_left h).symm).symm
  · unfold unblock
    rw [h.loop i hi]
    cases x.loop? i with
    | none => exact h
    | some l =>
      simp only
      split
      · exact h.setLoop hi _
      · exact h

/-! ## starts -/

theorem openLoop_alike (h : Alike a x y) (k : Kind) : Alike a (x.openLoop k) (y.openLoop k) := by
  have hloop (z : Instance) (i : Nat) : (z.openLoop k).loop? i =
      if i = z.loops.length then some { engine := z.attempts + 1, kind := k } else z.loop? i :=
    loop?_openLoop z k i
  have hlt := h.lt_count
  have hlt' := h.symm.lt_count
  have hattempts : y.attempts = x.attempts := by rw [h.rest]
  constructor
  · obtain ⟨ls, f, j, rfl⟩ := h.exists_eq
    rfl
  · simp only [openLoop, Instance.note, List.length_append, h.count]
    rfl
  · intro i hi
    rw [hloop, hloop, h.count, hattempts, h.loop i hi]
  · rw [hloop, if_neg (by omega)]
    exact h.shut
  · rw [hloop, if_neg (by omega)]
    exact h.shut'
  · exact h.undriven
  · exact h.unowned
  · exact h.notices

theorem prepare_alike (ha : KeepsAlike a answer) (h : Alike a x y) (i e : Nat) (q : Preparation) :
    Alike a (prepare answer i e x q) (prepare answer i e y q) := by
  cases q with
  | report r => exact report_alike ha h r
  | submit w => exact (submitTo_alike h i (.work w)).2.noteBoth rfl

theorem preparations_alike (ha : KeepsAlike a answer) (h : Alike a x y) (i e : Nat)
    (qs : List Preparation) :
    Alike a (qs.foldl (prepare answer i e) x) (qs.foldl (prepare answer i e) y) := by
  induction qs generalizing x y with
  | nil => exact h
  | cons q qs ih => exact ih (prepare_alike ha h i e q)

theorem built_alike (h : Alike a x y) (hi : i ≠ a) (pl : Plan) :
    Alike a (x.built i pl) (y.built i pl) := by
  have hclock : y.now = x.now ∧ y.settings = x.settings := by
    rw [h.rest]
    exact ⟨rfl, rfl⟩
  unfold built
  rw [h.loop i hi, hclock.1, hclock.2]
  cases x.loop? i with
  | none => exact h
  | some l =>
    simp only
    split
    · exact h.setLoop hi _
    · exact h.setLoop hi _
    · exact h.setLoop hi _

theorem begin_alike (h : Alike a x y) (hi : i ≠ a) (e : Nat) :
    Alike a (x.begin i e) (y.begin i e) := by
  have hmachine := h.update (f := fun z => { z with machine := x.machine.begin.2 })
    (fun _ _ _ _ => rfl) h.undriven h.unowned
  have hbegan := (hmachine.withFrames {} {}).note (.began e x.machine.begin.1)
  have hload := (submitTo_alike hbegan i (.work (.load x.url))).2
  have htarget := (submitTo_alike hload i (.lifecycle x.machine.begin.1)).2
  have hsession := htarget.update
    (f := fun z => { z with
      dispatcher := some i, owned := some i, sessions := z.sessions ++ [i] })
    (fun _ _ _ _ => rfl) (fun hia => hi (Option.some.inj hia)) (fun hia => hi (Option.some.inj hia))
  obtain ⟨ls, fr, j, rfl⟩ := h.exists_eq
  exact hsession

theorem start_alike (ha : KeepsAlike a answer) (h : Alike a x y) (pl : Plan) :
    Alike a (start answer x pl).2 (start answer y pl).2 := by
  have hattempts : y.attempts = x.attempts := by rw [h.rest]
  have howned : y.owned = x.owned := by rw [h.rest]
  have hattempt := h.update (f := fun z => { z with attempts := x.attempts + 1 })
    (fun _ _ _ _ => rfl) h.undriven h.unowned
  have hnew : x.loops.length ≠ a := by
    have hlt := h.lt_count
    omega
  have hprepared : Alike a (x.prepared answer pl) (y.prepared answer pl) := by
    unfold prepared
    rw [h.count, hattempts]
    exact preparations_alike ha (openLoop_alike h pl.kind) _ _ _
  have hbuilt := built_alike hprepared hnew pl
  unfold start
  simp only [spawn_eq]
  rw [hattempts, h.count]
  by_cases hbusy : x.owned.isSome
  · have hbusy' : y.owned.isSome := howned ▸ hbusy
    rw [if_pos hbusy, if_pos hbusy']
    exact hattempt
  · have hbusy' : ¬y.owned.isSome := howned ▸ hbusy
    rw [if_neg hbusy, if_neg hbusy']
    cases pl.outcome.fault? with
    | none => exact begin_alike hbuilt hnew _
    | some e => exact hbuilt

/-! ## calls -/

theorem closeLoop_alike (h : Alike a x y) (hi : i ≠ a) :
    Alike a (x.closeLoop i) (y.closeLoop i) := by
  unfold closeLoop
  rw [h.loop i hi]
  cases x.loop? i with
  | none => exact h
  | some l => exact h.setLoop hi _

theorem shutdown_alike (ha : KeepsAlike a answer) (h : Alike a x y) :
    Alike a (shutdown answer x).2 (shutdown answer y).2 := by
  have howned : y.owned = x.owned := by rw [h.rest]
  unfold shutdown
  rw [howned]
  cases hi : x.owned with
  | none => exact h
  | some i =>
    have hne := h.ne_of_owned hi
    have hfree := h.update (f := fun z => { z with owned := none, dispatcher := none })
      (fun _ _ _ _ => rfl) (by simp) (by simp)
    simp only [stopLoop_snd]
    exact drain_alike ha (closeLoop_alike ((hfree.withFrames {} {}).noteBoth rfl) hne) hne

theorem request_alike (h : Alike a x y) (c : Command) :
    Alike a (x.request c).2 (y.request c).2 := by
  unfold request
  rw [h.machine]
  cases x.machine.request c with
  | error e => exact h
  | ok r =>
    have hnoted := (h.update (f := fun z => { z with machine := r.2 })
      (fun _ _ _ _ => rfl) h.undriven h.unowned).note (.requested c r.1.next)
    simp only
    split
    · exact (submit_alike hnoted _).2
    · exact hnoted

theorem setUrl_alike (h : Alike a x y) (url : String) :
    Alike a (x.setUrl url) (y.setUrl url) := by
  have hurl := h.update (f := fun z => { z with url := url }) (fun _ _ _ _ => rfl)
    h.undriven h.unowned
  exact (submit_alike (hurl.note _) _).2

theorem hide_alike (h : Alike a x y) (hidden : Bool) :
    Alike a (x.hide hidden) (y.hide hidden) := by
  have hflip := h.update (f := fun z => { z with hidden := hidden }) (fun _ _ _ _ => rfl)
    h.undriven h.unowned
  have hqueued := (submit_alike (hflip.note (.flipped hidden)) (.visibility hidden)).2
  obtain ⟨ls, f, j, rfl⟩ := h.exists_eq
  unfold hide
  simp only
  split
  · exact h
  · exact hqueued

theorem emit_alike (ha : KeepsAlike a answer) (h : Alike a x y) (r : Report) (k : Option Nat) :
    Alike a (emit answer x r k).2 (emit answer y r k).2 := by
  have hloopOf : y.loopOf? k = x.loopOf? k := by rw [h.rest]; rfl
  unfold emit
  rw [hloopOf, h.dispatcher]
  cases x.loopOf? k with
  | none => exact h
  | some j =>
    cases hi : x.dispatcher with
    | none => exact report_alike ha h r
    | some i =>
      have hne := h.ne_of_dispatcher hi
      simp only
      rw [h.loop i hne]
      split
      · exact drain_alike ha (submitTo_alike h i _).2 hne
      · exact report_alike ha h r

theorem hold_alike (ha : KeepsAlike a answer) (h : Alike a x y) :
    Alike a (hold answer x).2 (hold answer y).2 := by
  have hholding : y.holding = x.holding := by rw [h.rest]
  unfold hold
  rw [hholding, h.dispatcher]
  cases x.holding with
  | some j => exact h
  | none =>
    cases hi : x.dispatcher with
    | none => exact h
    | some i =>
      have hne := h.ne_of_dispatcher hi
      obtain ⟨haccepted, hsubmit⟩ := submitTo_alike h i .block
      simp only
      cases hx : x.submitTo i .block with
      | mk b x' =>
        cases hy : y.submitTo i .block with
        | mk b' y' =>
          rw [hx, hy] at haccepted hsubmit
          obtain rfl : b' = b := haccepted
          cases b' with
          | false => exact hsubmit
          | true =>
            have hdrained := drain_alike ha hsubmit hne
            exact hdrained.update (f := fun z => { z with holding := some i })
              (fun _ _ _ _ => rfl) hdrained.undriven hdrained.unowned

theorem release_alike (h : Alike a x y) : Alike a x.release.2 y.release.2 := by
  have hholding : y.holding = x.holding := by rw [h.rest]
  have hfree := h.update (f := fun z => { z with holding := none }) (fun _ _ _ _ => rfl)
    h.undriven h.unowned
  unfold release
  rw [hholding]
  cases x.holding with
  | none => exact h
  | some i => exact unblock_alike hfree i

theorem submitWork_alike (h : Alike a x y) (k : Nat) (w : Work) :
    Alike a (x.submitWork k w).2 (y.submitWork k w).2 := by
  have hsession : y.session? k = x.session? k := by rw [h.rest]; rfl
  unfold submitWork
  rw [hsession]
  cases x.session? k with
  | none => exact h
  | some i => exact (submitTo_alike h i _).2

theorem callAll_alike (ha : KeepsAlike a answer) (h : Alike a x y) (cs : List Call) :
    Alike a (callAll answer x cs) (callAll answer y cs) := by
  induction cs generalizing x y with
  | nil => exact h
  | cons c cs ih => exact ih (ha c x y h)

/-- What concerns the hub and its observers has nothing to do with loops. -/
theorem registry_alike (h : Alike a x y) (role : Role) (name : String) (rs : List Reaction)
    (o : ObserverId) :
    Alike a (x.mention name rs) (y.mention name rs) ∧
      Alike a (x.register role o).2 (y.register role o).2 ∧
      Alike a (x.unregister role o).2 (y.unregister role o).2 := by
  have hreactions : y.reactions? name = x.reactions? name := by
    unfold reactions?
    rw [h.observers]
  refine ⟨?_, ?_, ?_⟩
  · unfold mention
    rw [hreactions]
    cases x.reactions? name with
    | some _ => exact h
    | none =>
      exact h.update (f := fun z => { z with observers := z.observers ++ [⟨name, rs⟩] })
        (fun _ _ _ _ => rfl) h.undriven h.unowned
  · unfold register
    rw [h.hub]
    split
    · split
      · next hub' _ =>
        exact h.update (f := fun z => { z with hub := hub' }) (fun _ _ _ _ => rfl)
          h.undriven h.unowned
      · exact h
    · exact h
  · unfold unregister
    rw [h.hub]
    split
    · split
      · next hub' _ =>
        exact h.update (f := fun z => { z with hub := hub' }) (fun _ _ _ _ => rfl)
          h.undriven h.unowned
      · exact h
    · exact h

theorem performWith_alike (ha : KeepsAlike a answer) : KeepsAlike a (performWith answer) := by
  intro c x y h
  have hregister (z w : Instance) (hzw : Alike a z w) (role : Role) (o : ObserverId) :
      Alike a (z.register role o).2 (w.register role o).2 :=
    (registry_alike hzw role "" [] o).2.1
  cases c with
  | register role name rs =>
    exact hregister _ _ (registry_alike h role name rs (.named name)).1 role (.named name)
  | registerQuiet =>
    have hquiet : y.quiet = x.quiet := by rw [h.rest]
    have hnext := h.update (f := fun z => { z with quiet := x.quiet + 1 }) (fun _ _ _ _ => rfl)
      h.undriven h.unowned
    simp only [performWith, registerQuiet]
    rw [hquiet]
    exact hregister _ _ hnext .lifecycle (.quiet x.quiet)
  | unregister role name rs =>
    have hmention := (registry_alike h role name rs (.named name)).1
    exact (registry_alike hmention role name rs (.named name)).2.2
  | notify n =>
    simp only [performWith]
    rw [h.hub]
    split
    · exact tell_alike ha h n
    · exact h
  | dropHub =>
    exact h.update (f := fun z => { z with hub := z.hub.drop }) (fun _ _ _ _ => rfl)
      h.undriven h.unowned
  | subscribe id =>
    simp only [performWith, subscribe]
    rw [h.hub]
    split
    · exact h.update
        (f := fun z => { z with hub := { x.hub with channel := x.hub.channel.subscribe id } })
        (fun _ _ _ _ => rfl) h.undriven h.unowned
    · exact h
  | unsubscribe id =>
    exact h.update
      (f := fun z => { z with
        hub := { z.hub with channel := (z.hub.channel.unsubscribe id).2 } })
      (fun _ _ _ _ => rfl) h.undriven h.unowned
  | receive id max =>
    exact h.update
      (f := fun z => { z with
        hub := { z.hub with channel := (z.hub.channel.receive id max).2 } })
      (fun _ _ _ _ => rfl) h.undriven h.unowned
  | start pl => exact start_alike ha h pl
  | shutdown => exact shutdown_alike ha h
  | suspend | resume | request c => exact request_alike h _
  | setUrl url => exact setUrl_alike h url
  | hide hidden => exact hide_alike h hidden
  | dispatch w => exact (submit_alike h (.work w)).2
  | submit k w => exact submitWork_alike h k w
  | isClosed _ | settings | read => exact h
  | emit r k => exact emit_alike ha h r k
  | hold => exact hold_alike ha h
  | release => exact release_alike h
  | advance ns =>
    exact h.update (f := fun z => { z with now := z.now + ns }) (fun _ _ _ _ => rfl)
      h.undriven h.unowned
  | «repeat» n cs => exact callAll_alike ha h _

end

/-- A call keeps two instances alike, however deep calls nest. -/
theorem perform_alike (a depth : Nat) : KeepsAlike a (perform depth) := by
  induction depth with
  | zero => exact fun _ _ _ h => h
  | succ depth ih => exact performWith_alike ih

theorem call_alike (a : Nat) : KeepsAlike a call := by
  intro c x y h
  unfold call
  rw [h.reach]
  exact perform_alike a _ c x y h

/-! ## turns -/

/-- Whether a turn is one of the given loop. -/
def Turn.isOf (a : Nat) : Turn → Bool
  | .call _ => false
  | .message i | .tick i | .stall i | .goOn i => i == a

section

variable {a : Nat} {x y : Instance}

/-- Callers and other loops do the same to both. -/
theorem turn_alike (h : Alike a x y) {t : Turn} (ht : t.isOf a = false) :
    Alike a (x.turn t) (y.turn t) := by
  cases t with
  | call c => exact call_alike a c x y h
  | message i =>
    have hi : i ≠ a := by simpa [Turn.isOf] using ht
    have hstep := stepLoop_alike (call_alike a) h hi
    simp only [turn]
    cases hx : stepLoop call x i with
    | none =>
      rw [hx] at hstep
      cases hy : stepLoop call y i with
      | none => exact h
      | some y' =>
        rw [hy] at hstep
        cases hstep
    | some x' =>
      rw [hx] at hstep
      cases hy : stepLoop call y i with
      | none =>
        rw [hy] at hstep
        cases hstep
      | some y' =>
        rw [hy] at hstep
        cases hstep with
        | some h' => exact h'
  | tick i => exact tickLoop_alike h (by simpa [Turn.isOf] using ht)
  | stall i => exact stall_alike h (by simpa [Turn.isOf] using ht)
  | goOn i => exact unblock_alike h i

end

end BrowserHost.Instance
