import BrowserHost.Proofs.Outline

/-!
# BrowserHost.Proofs.Order

How sessions, loops and the journal hang together in every run, whatever calls
are made and however the loops are scheduled.

* `Numbered`: every loop has an engine of its own, and what the journal says is
  left of its tasks is what stands in its queue;
* `Placed`: lifecycle and visibility tasks stand only in queues of sessions, and
  only the latest session can still get more of them;
* `play_orderly`: both hold after every schedule.
-/

namespace BrowserHost.Instance

open Engine Outline

/-! ## what stands in a queue -/

/-- The state that a message is to apply. -/
def target? : Message → Option State
  | .run (.lifecycle s) => some s
  | _ => none

/-- The visibility that a message is to apply. -/
def flag? : Message → Option Bool
  | .run (.visibility h) => some h
  | _ => none

namespace Strand

def targets (g : Strand) : List State :=
  g.queue.filterMap target?

def flags (g : Strand) : List Bool :=
  g.queue.filterMap flag?

variable (g : Strand)

@[simp] theorem targets_push (t : Task) :
    (g.push t).targets = g.targets ++ (target? (.run t)).toList := by
  unfold targets push
  rw [List.filterMap_append]
  cases t <;> rfl

@[simp] theorem flags_push (t : Task) :
    (g.push t).flags = g.flags ++ (flag? (.run t)).toList := by
  unfold flags push
  rw [List.filterMap_append]
  cases t <;> rfl

@[simp] theorem targets_close : g.close.targets = g.targets := by
  unfold targets close
  split
  · rfl
  · simp only
    split
    · rw [List.filterMap_append]
      simp [target?]
    · rfl

@[simp] theorem engine_close : g.close.engine = g.engine := by
  unfold close
  split <;> rfl

@[simp] theorem alive_close : g.close.alive = g.alive := by
  unfold close
  split <;> rfl

@[simp] theorem building_close : g.close.building = g.building := by
  unfold close
  split <;> rfl

@[simp] theorem view_close : g.close.view = g.view := by
  unfold close
  split <;> rfl

@[simp] theorem closed_close : g.close.closed = true := by
  unfold close
  by_cases h : g.closed
  · rw [if_pos h, h]
  · rw [if_neg h]

end Strand

theorem targets_of_queue {g : Strand} {t : Task} {rest : List Message}
    (hq : g.queue = .run t :: rest) :
    g.targets = (target? (.run t)).toList ++ rest.filterMap target? := by
  unfold Strand.targets
  rw [hq]
  cases t <;> rfl

theorem flags_of_queue {g : Strand} {t : Task} {rest : List Message}
    (hq : g.queue = .run t :: rest) :
    g.flags = (flag? (.run t)).toList ++ rest.filterMap flag? := by
  unfold Strand.flags
  rw [hq]
  cases t <;> rfl

theorem target?_of_plain {t : Task} (ht : isPlainTask t) : target? (.run t) = none := by
  cases t with
  | lifecycle s => simp [isPlainTask] at ht
  | _ => rfl

theorem flag?_of_plain {t : Task} (ht : isPlainTask t) : flag? (.run t) = none := by
  cases t with
  | visibility s => simp [isPlainTask] at ht
  | _ => rfl

/-! ## loops of an outline -/

namespace Outline

variable {o : Outline} {i : Nat} {g : Strand}

theorem loop?_setLoop (hg : o.loop? i = some g) (g' : Strand) (j : Nat) :
    (o.setLoop i g').loop? j = if i = j then some g' else o.loop? j := by
  have hi : i < o.loops.length := (List.getElem?_eq_some_iff.1 hg).1
  unfold Outline.loop? Outline.setLoop
  by_cases hij : i = j
  · subst hij
    rw [if_pos rfl, List.getElem?_set_self hi]
  · rw [if_neg hij, List.getElem?_set_ne hij]

/-- A loop is the one that was put there, or it was there before. -/
theorem loop?_setLoop_cases (hg : o.loop? i = some g) {g' : Strand} {j : Nat} {k : Strand}
    (hk : (o.setLoop i g').loop? j = some k) : (i = j ∧ k = g') ∨ (i ≠ j ∧ o.loop? j = some k) := by
  rw [loop?_setLoop hg] at hk
  by_cases hij : i = j
  · rw [if_pos hij] at hk
    exact .inl ⟨hij, (Option.some.inj hk).symm⟩
  · rw [if_neg hij] at hk
    exact .inr ⟨hij, hk⟩

/-- No loop is taken away. -/
theorem exists_loop?_setLoop (hg : o.loop? i = some g) (g' : Strand) {j : Nat}
    (hj : ∃ k, o.loop? j = some k) : ∃ k, (o.setLoop i g').loop? j = some k := by
  rw [loop?_setLoop hg]
  by_cases hij : i = j
  · exact ⟨g', if_pos hij⟩
  · rwa [if_neg hij]

theorem loop?_append (o : Outline) (g : Strand) (j : Nat) :
    (o.loops ++ [g])[j]? = if j = o.loops.length then some g else o.loop? j := by
  unfold Outline.loop?
  rw [List.getElem?_append]
  by_cases hj : j < o.loops.length
  · rw [if_pos hj, if_neg (by omega)]
  · rw [if_neg hj]
    by_cases hlast : j = o.loops.length
    · simp [hlast]
    · rw [if_neg hlast, List.getElem?_eq_none (by simp; omega), List.getElem?_eq_none (by omega)]

/-- A loop is the new one, or it was there before. -/
theorem loop?_append_cases {j : Nat} {k : Strand} (hk : (o.loops ++ [g])[j]? = some k) :
    (j = o.loops.length ∧ k = g) ∨ (j ≠ o.loops.length ∧ o.loop? j = some k) := by
  rw [loop?_append] at hk
  by_cases hj : j = o.loops.length
  · rw [if_pos hj] at hk
    exact .inl ⟨hj, (Option.some.inj hk).symm⟩
  · rw [if_neg hj] at hk
    exact .inr ⟨hj, hk⟩

theorem closeLoop_eq (hg : o.loop? i = some g) : o.closeLoop i = o.setLoop i g.close := by
  unfold closeLoop
  rw [hg]

/-- A submission either changes nothing or pushes the task. -/
theorem submitTo_cases (o : Outline) (i : Nat) (t : Task) :
    (o.submitTo i t = o ∧ ∀ g, o.loop? i = some g → g.accepts = false) ∨
      ∃ g, o.loop? i = some g ∧ g.accepts ∧
        o.submitTo i t = (o.setLoop i (g.push t)).note (.queued g.engine t) := by
  unfold submitTo
  cases hg : o.loop? i with
  | none => exact .inl ⟨rfl, by simp⟩
  | some g =>
    by_cases ha : g.accepts
    · exact .inr ⟨g, rfl, ha, by simp only [ha, if_true]⟩
    · have hrefused : g.accepts = false := by simpa using ha
      refine .inl ⟨by simp only [hrefused, Bool.false_eq_true, if_false], fun g' hg' => ?_⟩
      rw [← Option.some.inj hg']
      exact hrefused

end Outline

@[simp] theorem Outline.sessions_submitTo (o : Outline) (i : Nat) (t : Task) :
    (o.submitTo i t).sessions = o.sessions := by
  rcases submitTo_cases o i t with ⟨heq, -⟩ | ⟨g, -, -, heq⟩
  · rw [heq]
  · rw [heq]
    rfl

/-! ## what is left, entry by entry -/

theorem left_queued (d e : Nat) (t : Task) (j : List Entry) :
    left d (.queued e t :: j) =
      if e = d then left d j ++ (target? (.run t)).toList else left d j := by
  cases t <;> simp [left, target?]

theorem left_ran (d e : Nat) (t : Task) (j : List Entry) :
    left d (.ran e t :: j) =
      if e = d then (left d j).drop (target? (.run t)).toList.length else left d j := by
  cases t <;> simp [left, target?]

/-! ## engines and what is left for them -/

/-- Every loop has an engine of its own, and what the journal says is left for
the engine stands in the queue of the loop. -/
structure Numbered (o : Outline) : Prop where
  bounded : ∀ i g, o.loop? i = some g → g.engine ≤ o.attempts
  distinct : ∀ i j g g', o.loop? i = some g → o.loop? j = some g' → g.engine = g'.engine → i = j
  waiting : ∀ i g, o.loop? i = some g → left g.engine o.journal = g.targets
  unknown : ∀ e, o.attempts < e → left e o.journal = []

namespace Numbered

variable {o o' : Outline} {i : Nat} {g g' : Strand}

/-- Only loops, their number and what is left matter. -/
theorem congr (h : Numbered o) (hl : o'.loops = o.loops) (ha : o.attempts ≤ o'.attempts)
    (hj : ∀ e, left e o'.journal = left e o.journal) : Numbered o' := by
  have hloop (i : Nat) : o'.loop? i = o.loop? i := by unfold Outline.loop?; rw [hl]
  constructor
  · intro i g hg
    rw [hloop] at hg
    exact (h.bounded i g hg).trans ha
  · intro i j g g' hg hg' he
    rw [hloop] at hg hg'
    exact h.distinct i j g g' hg hg' he
  · intro i g hg
    rw [hloop] at hg
    rw [hj]
    exact h.waiting i g hg
  · intro e he
    rw [hj]
    exact h.unknown e (by omega)

/-- One loop gets another queue, and the journal says so. -/
theorem replace (h : Numbered o) (hg : o.loop? i = some g) (g' : Strand)
    (he : g'.engine = g.engine) (hl : o'.loops = o.loops.set i g') (ha : o'.attempts = o.attempts)
    (hj : ∀ e, left e o'.journal = if g.engine = e then g'.targets else left e o.journal) :
    Numbered o' := by
  have hcases (j : Nat) (k : Strand) (hk : o'.loop? j = some k) :
      (i = j ∧ k = g') ∨ (i ≠ j ∧ o.loop? j = some k) := by
    unfold Outline.loop? at hk
    rw [hl] at hk
    exact loop?_setLoop_cases hg hk
  -- every loop has the engine that it had
  have hold (j : Nat) (k : Strand) (hk : o'.loop? j = some k) :
      ∃ k', o.loop? j = some k' ∧ k'.engine = k.engine := by
    rcases hcases j k hk with ⟨rfl, rfl⟩ | ⟨-, hk⟩
    · exact ⟨g, hg, he.symm⟩
    · exact ⟨k, hk, rfl⟩
  constructor
  · intro j k hk
    obtain ⟨k', hk', hke⟩ := hold j k hk
    rw [← hke, ha]
    exact h.bounded j k' hk'
  · intro j m k k' hk hk' hkk
    obtain ⟨l, hl, hle⟩ := hold j k hk
    obtain ⟨l', hl', hle'⟩ := hold m k' hk'
    exact h.distinct j m l l' hl hl' (by rw [hle, hle', hkk])
  · intro j k hk
    rw [hj]
    rcases hcases j k hk with ⟨rfl, rfl⟩ | ⟨hij, hk⟩
    · rw [if_pos he.symm]
    · rw [if_neg (fun hke => hij (h.distinct i j g k hg hk hke))]
      exact h.waiting j k hk
  · intro e hlt
    rw [ha] at hlt
    have hne : g.engine ≠ e := by
      have hle := h.bounded i g hg
      omega
    rw [hj, if_neg hne]
    exact h.unknown e hlt

theorem note (h : Numbered o) {e : Entry} (hj : ∀ d, left d (e :: o.journal) = left d o.journal) :
    Numbered (o.note e) :=
  h.congr rfl (Nat.le_refl _) hj

/-- One loop gets another queue with the same tasks, as far as they count. -/
theorem setLoop (h : Numbered o) (hg : o.loop? i = some g) (he : g'.engine = g.engine)
    (ht : g'.targets = g.targets) : Numbered (o.setLoop i g') := by
  refine h.replace hg g' he rfl rfl fun e => ?_
  by_cases hge : g.engine = e
  · rw [if_pos hge, ht, ← h.waiting i g hg, hge]
    rfl
  · rw [if_neg hge]
    rfl

theorem submitTo (h : Numbered o) (i : Nat) (t : Task) : Numbered (o.submitTo i t) := by
  rcases submitTo_cases o i t with ⟨heq, -⟩ | ⟨g, hg, -, heq⟩
  · rw [heq]
    exact h
  · rw [heq]
    refine h.replace hg (g.push t) rfl rfl rfl fun e => ?_
    simp only [Outline.note, Outline.setLoop]
    rw [left_queued]
    by_cases hge : g.engine = e
    · rw [if_pos hge, if_pos hge, Strand.targets_push, ← h.waiting i g hg, hge]
    · rw [if_neg hge, if_neg hge]

theorem submit (h : Numbered o) (t : Task) : Numbered (o.submit t) := by
  unfold Outline.submit
  split
  · exact h
  · exact h.submitTo _ t

theorem take (h : Numbered o) (hg : o.loop? i = some g) {t : Task} {rest : List Message}
    (hq : g.queue = .run t :: rest) (v : View) : Numbered (o.take i g t rest v) := by
  refine h.replace hg { g with queue := rest, view := v } rfl rfl rfl fun e => ?_
  simp only [Outline.take, Outline.note, Outline.setLoop]
  rw [left_ran]
  by_cases hge : g.engine = e
  · rw [if_pos hge, if_pos hge, ← hge, h.waiting i g hg, targets_of_queue hq]
    exact List.drop_left
  · rw [if_neg hge, if_neg hge]

theorem settleOn (h : Numbered o) (k : Nat) (s : State) : Numbered (o.settleOn k s) := by
  unfold Outline.settleOn
  split
  · exact h.congr rfl (Nat.le_refl _) fun _ => rfl
  · exact h.congr rfl (Nat.le_refl _) fun _ => rfl

theorem closeLoop (h : Numbered o) (i : Nat) : Numbered (o.closeLoop i) := by
  unfold Outline.closeLoop
  cases hg : o.loop? i with
  | none => exact h
  | some g => exact h.setLoop hg (Strand.engine_close g) (Strand.targets_close g)

/-- A loop that has ended has nothing left. -/
theorem drop (h : Numbered o) (hg : o.loop? i = some g) :
    Numbered ((o.setLoop i g.finish).note (.dropped g.engine)) := by
  refine h.replace hg g.finish rfl rfl rfl fun e => ?_
  simp only [Outline.note, Outline.setLoop, left]
  rfl

theorem openLoop (h : Numbered o) :
    Numbered { o with
      attempts := o.attempts + 1
      loops := o.loops ++ [{ engine := o.attempts + 1 }] } := by
  constructor
  · intro i g hg
    rcases loop?_append_cases hg with ⟨-, rfl⟩ | ⟨-, hg⟩
    · exact Nat.le_refl _
    · exact (h.bounded i g hg).trans (Nat.le_succ _)
  · intro i j g g' hg hg' he
    rcases loop?_append_cases hg with ⟨hi, rfl⟩ | ⟨-, hg⟩
    · rcases loop?_append_cases hg' with ⟨hj, rfl⟩ | ⟨-, hg'⟩
      · rw [hi, hj]
      · have hle := h.bounded j g' hg'
        simp only at he
        omega
    · rcases loop?_append_cases hg' with ⟨-, rfl⟩ | ⟨-, hg'⟩
      · have hle := h.bounded i g hg
        simp only at he
        omega
      · exact h.distinct i j g g' hg hg' he
  · intro i g hg
    rcases loop?_append_cases hg with ⟨-, rfl⟩ | ⟨-, hg⟩
    · exact h.unknown _ (Nat.lt_succ_self _)
    · exact h.waiting i g hg
  · intro e he
    simp only at he ⊢
    exact h.unknown e (by omega)

end Numbered

/-! ## where tasks stand -/

/-- Lifecycle and visibility tasks stand only in queues of sessions.  The loop
of the latest session accepts tasks as long as the session is running, unless
its engine failed. -/
structure Placed (o : Outline) : Prop where
  building : ∀ i g, o.loop? i = some g → g.building → g.closed = false ∧ i ∉ o.sessions
  scheduled : ∀ i g, o.loop? i = some g → g.targets ≠ [] ∨ g.flags ≠ [] → i ∈ o.sessions
  present : ∀ i, i ∈ o.sessions → ∃ g, o.loop? i = some g
  stopping : ∀ i g, o.loop? i = some g → g.closed → g.alive → .stop ∈ g.queue
  owned : o.owned = o.dispatcher
  current : ∀ i, o.dispatcher = some i → o.sessions.getLast? = some i
  opened : ∀ i g, o.dispatcher = some i → o.loop? i = some g → g.closed = false
  closed : ∀ i g, o.dispatcher = none → o.sessions.getLast? = some i → o.loop? i = some g →
    g.closed
  running : isRunning o.journal = o.dispatcher.isSome
  latest : ∀ i g, o.sessions.getLast? = some i → o.loop? i = some g →
    latest o.journal = some g.engine
  unbegun : o.sessions = [] → Instance.latest o.journal = none
  awake : o.dispatcher.isSome → o.machine.requested ≠ .uninitialized

namespace Placed

variable {o o' : Outline} {i : Nat} {g g' : Strand}

theorem note (h : Placed o) {e : Entry} (hr : isRunning (e :: o.journal) = isRunning o.journal)
    (hl : Instance.latest (e :: o.journal) = Instance.latest o.journal) : Placed (o.note e) :=
  { h with
    running := hr.trans h.running
    latest := fun i g hi hg => hl.trans (h.latest i g hi hg)
    unbegun := fun hs => hl.trans (h.unbegun hs) }

/-- A loop that keeps its engine and stays as open or closed as it was. -/
theorem setLoop (h : Placed o) (hg : o.loop? i = some g) (g' : Strand)
    (he : g'.engine = g.engine) (hc : g'.closed = g.closed) (hb : g'.building → g.building)
    (ht : g'.targets ≠ [] ∨ g'.flags ≠ [] → i ∈ o.sessions)
    (hs : g'.closed → g'.alive → .stop ∈ g'.queue) : Placed (o.setLoop i g') := by
  refine { h with building := ?_, scheduled := ?_, present := ?_, stopping := ?_, opened := ?_,
                  closed := ?_, latest := ?_ }
  · intro j k hk hkb
    rcases loop?_setLoop_cases hg hk with ⟨rfl, rfl⟩ | ⟨-, hk⟩
    · rw [hc]
      exact h.building i g hg (hb hkb)
    · exact h.building j k hk hkb
  · intro j k hk hkt
    rcases loop?_setLoop_cases hg hk with ⟨rfl, rfl⟩ | ⟨-, hk⟩
    · exact ht hkt
    · exact h.scheduled j k hk hkt
  · intro j hj
    exact exists_loop?_setLoop hg g' (h.present j hj)
  · intro j k hk
    rcases loop?_setLoop_cases hg hk with ⟨rfl, rfl⟩ | ⟨-, hk⟩
    · exact hs
    · exact h.stopping j k hk
  · intro j k hd hk
    rcases loop?_setLoop_cases hg hk with ⟨rfl, rfl⟩ | ⟨-, hk⟩
    · rw [hc]
      exact h.opened i g hd hg
    · exact h.opened j k hd hk
  · intro j k hd hj hk
    rcases loop?_setLoop_cases hg hk with ⟨rfl, rfl⟩ | ⟨-, hk⟩
    · rw [hc]
      exact h.closed i g hd hj hg
    · exact h.closed j k hd hj hk
  · intro j k hj hk
    rcases loop?_setLoop_cases hg hk with ⟨rfl, rfl⟩ | ⟨-, hk⟩
    · rw [he]
      exact h.latest i g hj hg
    · exact h.latest j k hj hk

theorem submitTo (h : Placed o) {t : Task} (ht : isPlainTask t ∨ i ∈ o.sessions) :
    Placed (o.submitTo i t) := by
  rcases submitTo_cases o i t with ⟨heq, -⟩ | ⟨g, hg, ha, heq⟩
  · rw [heq]
    exact h
  · rw [heq]
    refine .note (h.setLoop hg (g.push t) rfl rfl id ?_ ?_) rfl rfl
    · intro hne
      rcases ht with ht | hi
      · simp only [Strand.targets_push, Strand.flags_push, target?_of_plain ht,
          flag?_of_plain ht, Option.toList_none, List.append_nil] at hne
        exact h.scheduled i g hg hne
      · exact hi
    · intro hc
      simp [Strand.accepts, Strand.push] at ha hc
      simp [ha] at hc

theorem take (h : Placed o) (hg : o.loop? i = some g) {t : Task} {rest : List Message}
    (hq : g.queue = .run t :: rest) (v : View) : Placed (o.take i g t rest v) := by
  refine .note (h.setLoop hg { g with queue := rest, view := v } rfl rfl id ?_ ?_) rfl rfl
  · intro hne
    refine h.scheduled i g hg ?_
    rw [targets_of_queue hq, flags_of_queue hq]
    rcases hne with hne | hne
    · exact .inl (List.append_ne_nil_of_right_ne_nil _ hne)
    · exact .inr (List.append_ne_nil_of_right_ne_nil _ hne)
  · intro hc ha
    have hstop := h.stopping i g hg hc ha
    rw [hq] at hstop
    simpa using hstop

/-- A loop without a session has no tasks that count. -/
theorem targets_of_building (h : Placed o) (hg : o.loop? i = some g) (hb : g.building) :
    g.targets = [] := by
  by_contra hne
  exact (h.building i g hg hb).2 (h.scheduled i g hg (.inl hne))

theorem flags_of_building (h : Placed o) (hg : o.loop? i = some g) (hb : g.building) :
    g.flags = [] := by
  by_contra hne
  exact (h.building i g hg hb).2 (h.scheduled i g hg (.inr hne))

theorem finish (h : Placed o) (hg : o.loop? i = some g) : Placed (o.setLoop i g.finish) := by
  refine h.setLoop hg g.finish rfl rfl (by simp [Strand.finish]) ?_ (by simp [Strand.finish])
  simp [Strand.finish, Strand.targets, Strand.flags]

theorem withMachine (h : Placed o) {m : Machine}
    (hm : o.dispatcher.isSome → m.requested ≠ .uninitialized) :
    Placed { o with machine := m } :=
  { h with awake := hm }

theorem settleOn (h : Placed o) (k : Nat) (s : State) : Placed (o.settleOn k s) := by
  have hmachine : Placed { o with machine := (o.machine.confirm s).2 } :=
    h.withMachine fun hd => by rw [Machine.confirm_requested]; exact h.awake hd
  unfold Outline.settleOn
  split
  · exact hmachine.note rfl rfl
  · exact hmachine

theorem submit (h : Placed o) (t : Task) : Placed (o.submit t) := by
  unfold Outline.submit
  cases hd : o.dispatcher with
  | none => exact h
  | some i => exact h.submitTo (.inr (List.mem_of_getLast? (h.current i hd)))

theorem openLoop (h : Placed o) :
    Placed { o with
      attempts := o.attempts + 1
      loops := o.loops ++ [{ engine := o.attempts + 1 }] } := by
  have hlt (i : Nat) (g : Strand) (hg : o.loop? i = some g) : i < o.loops.length :=
    (List.getElem?_eq_some_iff.1 hg).1
  have hlast (i : Nat) (hi : i ∈ o.sessions) : i ≠ o.loops.length := by
    obtain ⟨g, hg⟩ := h.present i hi
    exact Nat.ne_of_lt (hlt i g hg)
  refine { h with building := ?_, scheduled := ?_, present := ?_, stopping := ?_, opened := ?_,
                  closed := ?_, latest := ?_ }
  · intro i g hg hb
    rcases loop?_append_cases hg with ⟨hi, rfl⟩ | ⟨-, hg⟩
    · exact ⟨rfl, fun hmem => hlast i hmem hi⟩
    · exact h.building i g hg hb
  · intro i g hg ht
    rcases loop?_append_cases hg with ⟨-, rfl⟩ | ⟨-, hg⟩
    · simp [Strand.targets, Strand.flags] at ht
    · exact h.scheduled i g hg ht
  · intro i hi
    simp only [Outline.loop?]
    rw [loop?_append, if_neg (hlast i hi)]
    exact h.present i hi
  · intro i g hg hc
    rcases loop?_append_cases hg with ⟨-, rfl⟩ | ⟨-, hg⟩
    · simp at hc
    · exact h.stopping i g hg hc
  · intro i g hd hg
    have hne := hlast i (List.mem_of_getLast? (h.current i hd))
    exact h.opened i g hd ((loop?_append_cases hg).resolve_left fun hi => hne hi.1).2
  · intro i g hd hi hg
    have hne := hlast i (List.mem_of_getLast? hi)
    exact h.closed i g hd hi ((loop?_append_cases hg).resolve_left fun hi => hne hi.1).2
  · intro i g hi hg
    have hne := hlast i (List.mem_of_getLast? hi)
    exact h.latest i g hi ((loop?_append_cases hg).resolve_left fun hi => hne hi.1).2

theorem openSession (h : Placed o) (hg : o.loop? i = some g) (hb : g.building) :
    Placed (o.openSession i g) := by
  obtain ⟨hopen, hnew⟩ := h.building i g hg hb
  have hlast : (o.openSession i g).sessions.getLast? = some i := List.getLast?_concat
  have hmem (j : Nat) : j ∈ (o.openSession i g).sessions ↔ j ∈ o.sessions ∨ j = i := by
    simp only [Outline.openSession, List.mem_append, List.mem_singleton]
  -- the loop of the session
  have hmine (j : Nat) (k : Strand) (hj : i = j) (hk : (o.openSession i g).loop? j = some k) :
      k = { g with building := false } := by
    rcases loop?_setLoop_cases hg hk with ⟨-, rfl⟩ | ⟨hij, -⟩
    · rfl
    · exact absurd hj hij
  refine { building := ?_, scheduled := ?_, present := ?_, stopping := ?_, owned := rfl,
           current := ?_, opened := ?_, closed := ?_, running := rfl, latest := ?_,
           unbegun := ?_, awake := ?_ }
  · intro j k hk hkb
    rcases loop?_setLoop_cases hg hk with ⟨rfl, rfl⟩ | ⟨hij, hk⟩
    · simp at hkb
    · obtain ⟨hc, hj⟩ := h.building j k hk hkb
      rw [hmem, not_or]
      exact ⟨hc, hj, fun hji => hij hji.symm⟩
  · intro j k hk ht
    rw [hmem]
    rcases loop?_setLoop_cases hg hk with ⟨rfl, rfl⟩ | ⟨-, hk⟩
    · exact .inr rfl
    · exact .inl (h.scheduled j k hk ht)
  · intro j hj
    refine exists_loop?_setLoop hg _ ?_
    rcases (hmem j).1 hj with hj | rfl
    · exact h.present j hj
    · exact ⟨g, hg⟩
  · intro j k hk hc hka
    rcases loop?_setLoop_cases hg hk with ⟨rfl, rfl⟩ | ⟨-, hk⟩
    · simp [hopen] at hc
    · exact h.stopping j k hk hc hka
  · intro j hj
    rw [← Option.some.inj hj]
    exact hlast
  · intro j k hj hk
    rw [hmine j k (Option.some.inj hj) hk]
    exact hopen
  · intro j k hd
    simp [Outline.openSession] at hd
  · intro j k hj hk
    rw [hmine j k (Option.some.inj (hlast.symm.trans hj)) hk]
    rfl
  · intro hs
    rw [hs] at hlast
    simp at hlast
  · exact fun _ => Machine.begin_requested_ne_uninitialized _

/-- To give up a session is to close its loop. -/
theorem giveUp_eq (h : Placed o) (hi : o.owned = some i) (e : Nat) :
    ∃ g, o.loop? i = some g ∧ o.sessions.getLast? = some i ∧
      (Outline.note { o with owned := none, dispatcher := none } (.ended e)).closeLoop i =
        (Outline.note { o with owned := none, dispatcher := none } (.ended e)).setLoop i
          g.close := by
  have hlast := h.current i (h.owned ▸ hi)
  obtain ⟨g, hg⟩ := h.present i (List.mem_of_getLast? hlast)
  exact ⟨g, hg, hlast, closeLoop_eq (by exact hg)⟩

/-- A session that is given up leaves its loop closed. -/
theorem giveUp (h : Placed o) (hi : o.owned = some i) (e : Nat) :
    Placed ((Outline.note { o with owned := none, dispatcher := none } (.ended e)).closeLoop
      i) := by
  obtain ⟨g, hg, hlast, heq⟩ := h.giveUp_eq hi e
  have hopen := h.opened i g (h.owned ▸ hi) hg
  have hcases (j : Nat) (k : Strand)
      (hk : ((Outline.note { o with owned := none, dispatcher := none } (.ended e)).setLoop i
        g.close).loop? j = some k) : (i = j ∧ k = g.close) ∨ (i ≠ j ∧ o.loop? j = some k) :=
    loop?_setLoop_cases (by exact hg) hk
  rw [heq]
  refine { building := ?_, scheduled := ?_, present := ?_, stopping := ?_, owned := rfl,
           current := by simp [Outline.setLoop, Outline.note],
           opened := by simp [Outline.setLoop, Outline.note], closed := ?_, running := rfl,
           latest := ?_, unbegun := h.unbegun,
           awake := by simp [Outline.setLoop, Outline.note] }
  · intro j k hk hb
    rcases hcases j k hk with ⟨rfl, rfl⟩ | ⟨-, hk⟩
    · rw [Strand.building_close] at hb
      exact absurd (List.mem_of_getLast? hlast) (h.building i g hg hb).2
    · exact h.building j k hk hb
  · intro j k hk ht
    rcases hcases j k hk with ⟨rfl, rfl⟩ | ⟨-, hk⟩
    · exact List.mem_of_getLast? hlast
    · exact h.scheduled j k hk ht
  · intro j hj
    exact exists_loop?_setLoop (by exact hg) _ (h.present j hj)
  · intro j k hk hc ha
    rcases hcases j k hk with ⟨rfl, rfl⟩ | ⟨-, hk⟩
    · rw [Strand.alive_close] at ha
      simp [Strand.close, hopen, ha]
    · exact h.stopping j k hk hc ha
  · intro j k _ hj hk
    rcases hcases j k hk with ⟨rfl, rfl⟩ | ⟨hij, -⟩
    · exact Strand.closed_close g
    · exact absurd (Option.some.inj (hlast.symm.trans hj)) hij
  · intro j k hj hk
    rcases hcases j k hk with ⟨rfl, rfl⟩ | ⟨-, hk⟩
    · rw [Strand.engine_close]
      exact h.latest i g hj hg
    · exact h.latest j k hj hk

end Placed

/-! ## the machine -/

/-- An accepted request leads to another state, which the engine is told unless
there was none before. -/
theorem Machine.request_eq_ok {m m' : Machine} {c : Command} {t : Transition}
    (h : m.request c = .ok (t, m')) :
    m' = { m with requested := t.next } ∧ t.next ≠ .uninitialized ∧ t.next ≠ m.requested ∧
      (t.dispatch ↔ m.requested ≠ .uninitialized) := by
  unfold Machine.request at h
  cases hr : m.requested <;> cases c <;> simp [State.transition, Command.target, hr] at h <;>
    obtain ⟨rfl, rfl⟩ := h <;> simp

/-! ## every step -/

/-- Sessions, loops and journal hang together. -/
structure Orderly (o : Outline) : Prop extends Numbered o, Placed o

theorem Shift.orderly {p : Call → Bool} {o o' : Outline} (h : Shift p o o') (ho : Orderly o) :
    Orderly o' := by
  obtain ⟨hn, hp⟩ := ho
  cases h with
  | notify _ => exact ⟨hn.note fun _ => rfl, hp.note rfl rfl⟩
  | @request c t m hm =>
    obtain ⟨rfl, hnext, -, -⟩ := Machine.request_eq_ok hm
    have hnumbered : Numbered (Outline.note
        { o with machine := { o.machine with requested := t.next } } (.requested c t.next)) :=
      hn.congr rfl (Nat.le_refl _) fun _ => rfl
    have hplaced : Placed (Outline.note
        { o with machine := { o.machine with requested := t.next } } (.requested c t.next)) :=
      .note (hp.withMachine fun _ => hnext) rfl rfl
    unfold grant
    split
    · exact ⟨hnumbered.submit _, hplaced.submit _⟩
    · exact ⟨hnumbered, hplaced⟩
  | @ready i g url hg hb _ =>
    have hnumbered : Numbered (o.openSession i g) := by
      have hset : Numbered (o.setLoop i { g with building := false }) := hn.setLoop hg rfl rfl
      exact hset.congr rfl (Nat.le_refl _) fun _ => rfl
    have hmem : i ∈ (o.openSession i g).sessions := List.mem_append_right _ (by simp)
    have hload : Placed ((o.openSession i g).submitTo i (.work (.load url))) :=
      (hp.openSession hg hb).submitTo (.inl rfl)
    refine ⟨(hnumbered.submitTo _ _).submitTo _ _, hload.submitTo (.inr ?_)⟩
    rw [Outline.sessions_submitTo]
    exact hmem
  | @giveUp i e hi =>
    have hnumbered : Numbered (Outline.note { o with owned := none, dispatcher := none }
        (.ended e)) := hn.congr rfl (Nat.le_refl _) fun _ => rfl
    exact ⟨hnumbered.closeLoop _, hp.giveUp hi _⟩
  | finish hg hb => exact ⟨hn.drop hg, (hp.finish hg).note rfl rfl⟩
  | @lifecycle i k g s rest hg hb hq =>
    have hnumbered : Numbered ((o.take i g (.lifecycle s) rest (View.of s o.hidden)).note
        (.viewed g.engine (View.of s o.hidden))) := (hn.take hg hq _).note fun _ => rfl
    have hplaced : Placed ((o.take i g (.lifecycle s) rest (View.of s o.hidden)).note
        (.viewed g.engine (View.of s o.hidden))) := (hp.take hg hq _).note rfl rfl
    exact ⟨hnumbered.settleOn k s, hplaced.settleOn k s⟩

theorem Glance.orderly {o o' : Outline} (h : Glance o o') (ho : Orderly o) : Orderly o' := by
  obtain ⟨hn, hp⟩ := ho
  cases h with
  | @hide i v hi =>
    have hnumbered : Numbered (Outline.note { o with hidden := v } (.flipped v)) :=
      hn.congr rfl (Nat.le_refl _) fun _ => rfl
    have hplaced : Placed (Outline.note { o with hidden := v } (.flipped v)) := { hp with }
    exact ⟨hnumbered.submitTo _ _,
      hplaced.submitTo (.inr (List.mem_of_getLast? (hp.current i hi)))⟩
  | view hg hb hq => exact ⟨hn.take hg hq _, hp.take hg hq _⟩
  | visibility hg hb hq => exact ⟨hn.take hg hq _, hp.take hg hq _⟩

theorem Step.orderly {p : Call → Bool} {o o' : Outline} (h : Step p o o') (ho : Orderly o) :
    Orderly o' := by
  obtain ⟨hn, hp⟩ := ho
  cases h with
  | shift h => exact h.orderly ⟨hn, hp⟩
  | glance h => exact h.orderly ⟨hn, hp⟩
  | quiet he =>
    have hagree := agree_of_quiet he o.journal
    exact ⟨hn.note hagree.left, hp.note hagree.isRunning hagree.latest⟩
  | attempt => exact ⟨hn.congr rfl (by simp) fun _ => rfl, { hp with }⟩
  | openLoop => exact ⟨hn.openLoop, hp.openLoop⟩
  | push ht => exact ⟨hn.submitTo _ _, hp.submitTo (.inl ht)⟩
  | @fail i g hg hb =>
    exact ⟨hn.setLoop hg rfl (by rw [hp.targets_of_building hg hb]; rfl), hp.finish hg⟩
  | take hg hb hq ht => exact ⟨hn.take hg hq _, hp.take hg hq _⟩

theorem orderly_ofSettings (s : BrowserSettings) : Orderly (ofSettings s).outline := by
  have hnone (i : Nat) : (ofSettings s).outline.loop? i = none := rfl
  constructor
  · constructor
    · intro i g hg
      simp [hnone] at hg
    · intro i j g g' hg
      simp [hnone] at hg
    · intro i g hg
      simp [hnone] at hg
    · intro e _
      rfl
  · exact
      { building := by simp [hnone]
        scheduled := by simp [hnone]
        present := by simp [outline, ofSettings]
        stopping := by simp [hnone]
        owned := rfl
        current := by simp [outline, ofSettings]
        opened := by simp [hnone]
        closed := by simp [hnone]
        running := rfl
        latest := by simp [hnone]
        unbegun := fun _ => rfl
        awake := by simp [outline, ofSettings] }

theorem Changes.orderly {p : Call → Bool} {x y : Instance} (h : Changes p x y)
    (hx : Orderly x.outline) : Orderly y.outline := by
  induction h with
  | refl => exact hx
  | @tail y z _ hlast ih =>
    have hsteps := hlast.steps
    generalize z.outline = o at hsteps
    induction hsteps with
    | refl => exact ih
    | tail _ hstep ih' => exact hstep.orderly ih'

/-- Sessions, loops and journal hang together after every schedule. -/
theorem play_orderly {s : BrowserSettings} (ts : List Turn) :
    Orderly ((ofSettings s).play ts).outline :=
  outline_induction (orderly_ofSettings s) (fun _ _ h ho => h.orderly ho)
    fun t _ => Turn.every_true t

/-! ## calm steps -/

theorem agree_of_target_none {t : Task} (ht : target? (.run t) = none) (e : Nat)
    (j : List Entry) : Agree (.queued e t :: j) j ∧ Agree (.ran e t :: j) j := by
  cases t with
  | lifecycle s => simp [target?] at ht
  | _ =>
    constructor
    · constructor <;> intros <;> rfl
    · constructor <;> intros <;> rfl

/-- A step that changes neither states nor sessions, nor what the loops of
sessions are still to apply; and, if it is `still`, not their views either. -/
structure Calm (still : Prop) (o o' : Outline) : Prop where
  machine : o'.machine = o.machine
  sessions : o'.sessions = o.sessions
  dispatcher : o'.dispatcher = o.dispatcher
  hidden : still → o'.hidden = o.hidden
  loop : ∀ i g', i ∈ o.sessions → o'.loop? i = some g' → ∃ g, o.loop? i = some g ∧
    g'.engine = g.engine ∧ g'.targets = g.targets ∧ g'.alive = g.alive ∧
    (still → g'.flags = g.flags ∧ g'.view = g.view)
  agree : Agree o'.journal o.journal
  earlier : ∀ k, k <:+ o'.journal → k <:+ o.journal ∨ Agree k o.journal

namespace Calm

variable {still : Prop} {o o' o'' : Outline} {i : Nat} {g : Strand}

theorem trans (h : Calm still o o') (h' : Calm still o' o'') : Calm still o o'' where
  machine := h'.machine.trans h.machine
  sessions := h'.sessions.trans h.sessions
  dispatcher := h'.dispatcher.trans h.dispatcher
  hidden hs := (h'.hidden hs).trans (h.hidden hs)
  loop i g'' hi hg'' := by
    obtain ⟨g', hg', he', ht', ha', hv'⟩ := h'.loop i g'' (h.sessions ▸ hi) hg''
    obtain ⟨g, hg, he, ht, ha, hv⟩ := h.loop i g' hi hg'
    exact ⟨g, hg, he'.trans he, ht'.trans ht, ha'.trans ha,
      fun hs => ⟨(hv' hs).1.trans (hv hs).1, (hv' hs).2.trans (hv hs).2⟩⟩
  agree := h'.agree.trans h.agree
  earlier k hk := by
    rcases h'.earlier k hk with hk | hk
    · exact h.earlier k hk
    · exact .inr (hk.trans h.agree)

theorem note (o : Outline) {e : Entry} (he : Agree (e :: o.journal) o.journal) :
    Calm still o (o.note e) where
  machine := rfl
  sessions := rfl
  dispatcher := rfl
  hidden _ := rfl
  loop _ g _ hg := ⟨g, hg, rfl, rfl, rfl, fun _ => ⟨rfl, rfl⟩⟩
  agree := he
  earlier k hk := by
    rcases List.suffix_cons_iff.1 hk with rfl | hk
    · exact .inr he
    · exact .inl hk

/-- Only what stands on loops of sessions matters. -/
theorem of_loops (hm : o'.machine = o.machine) (hs : o'.sessions = o.sessions)
    (hd : o'.dispatcher = o.dispatcher) (hh : still → o'.hidden = o.hidden)
    (hj : o'.journal = o.journal)
    (hl : ∀ i g', i ∈ o.sessions → o'.loop? i = some g' → ∃ g, o.loop? i = some g ∧
      g'.engine = g.engine ∧ g'.targets = g.targets ∧ g'.alive = g.alive ∧
      (still → g'.flags = g.flags ∧ g'.view = g.view)) : Calm still o o' where
  machine := hm
  sessions := hs
  dispatcher := hd
  hidden := hh
  loop := hl
  agree := by rw [hj]; exact .refl _
  earlier k hk := .inl (hj ▸ hk)

theorem refl (o : Outline) : Calm still o o :=
  of_loops rfl rfl rfl (fun _ => rfl) rfl fun _ g _ hg =>
    ⟨g, hg, rfl, rfl, rfl, fun _ => ⟨rfl, rfl⟩⟩

theorem setLoop (hg : o.loop? i = some g) (g' : Strand)
    (h : i ∈ o.sessions → g'.engine = g.engine ∧ g'.targets = g.targets ∧ g'.alive = g.alive ∧
      (still → g'.flags = g.flags ∧ g'.view = g.view)) : Calm still o (o.setLoop i g') := by
  refine of_loops rfl rfl rfl (fun _ => rfl) rfl fun j k hj hk => ?_
  rcases loop?_setLoop_cases hg hk with ⟨rfl, rfl⟩ | ⟨-, hk⟩
  · exact ⟨g, hg, h hj⟩
  · exact ⟨k, hk, rfl, rfl, rfl, fun _ => ⟨rfl, rfl⟩⟩

theorem submitTo (o : Outline) (i : Nat) {t : Task} (ht : target? (.run t) = none)
    (hf : still → flag? (.run t) = none) : Calm still o (o.submitTo i t) := by
  rcases submitTo_cases o i t with ⟨heq, -⟩ | ⟨g, hg, -, heq⟩
  · rw [heq]
    exact refl o
  · rw [heq]
    refine (setLoop hg (g.push t) fun _ => ⟨rfl, ?_, rfl, fun hs => ⟨?_, rfl⟩⟩).trans
      (note _ (agree_of_target_none ht _ _).1)
    · rw [Strand.targets_push, ht, Option.toList_none, List.append_nil]
    · rw [Strand.flags_push, hf hs, Option.toList_none, List.append_nil]

theorem take (hg : o.loop? i = some g) {t : Task} {rest : List Message}
    (hq : g.queue = .run t :: rest) (ht : target? (.run t) = none) {v : View}
    (hf : still → flag? (.run t) = none ∧ v = g.view) : Calm still o (o.take i g t rest v) := by
  refine (setLoop hg { g with queue := rest, view := v } fun _ =>
    ⟨rfl, ?_, rfl, fun hs => ⟨?_, (hf hs).2⟩⟩).trans (note _ (agree_of_target_none ht _ _).2)
  · rw [targets_of_queue hq, ht, Option.toList_none, List.nil_append]
    rfl
  · rw [flags_of_queue hq, (hf hs).1, Option.toList_none, List.nil_append]
    rfl

/-- Those who do not ask about views need not be told. -/
theorem weaken (h : Calm still o o') : Calm False o o' :=
  { h with
    hidden := False.elim
    loop := fun i g' hi hg' => by
      obtain ⟨g, hg, he, ht, ha, -⟩ := h.loop i g' hi hg'
      exact ⟨g, hg, he, ht, ha, False.elim⟩ }

end Calm

theorem Glance.calm {o o' : Outline} (h : Glance o o') : Calm False o o' := by
  cases h with
  | @hide i v _ =>
    have hquiet : (Entry.flipped v).isLoud = false := rfl
    have hflag : Calm False o { o with hidden := v } :=
      .of_loops rfl rfl rfl False.elim rfl fun _ g _ hg => ⟨g, hg, rfl, rfl, rfl, False.elim⟩
    exact (hflag.trans (.note _ (agree_of_quiet hquiet _))).trans (.submitTo _ i rfl False.elim)
  | view hg _ hq => exact .take hg hq rfl False.elim
  | visibility hg _ hq => exact .take hg hq rfl False.elim

/-- Every step but a shift is calm, and still unless it is about the view. -/
theorem Step.kinds {p : Call → Bool} {o o' : Outline} (h : Step p o o') (ho : Placed o) :
    Calm True o o' ∨ Glance o o' ∨ Shift p o o' := by
  cases h with
  | shift h => exact .inr (.inr h)
  | glance h => exact .inr (.inl h)
  | quiet he => exact .inl (.note o (agree_of_quiet he _))
  | attempt =>
    exact .inl (.of_loops rfl rfl rfl (fun _ => rfl) rfl fun _ g _ hg =>
      ⟨g, hg, rfl, rfl, rfl, fun _ => ⟨rfl, rfl⟩⟩)
  | openLoop =>
    refine .inl (.of_loops rfl rfl rfl (fun _ => rfl) rfl fun j k hj hk => ?_)
    obtain ⟨g, hg⟩ := ho.present j hj
    have hlt : j < o.loops.length := (List.getElem?_eq_some_iff.1 hg).1
    rcases loop?_append_cases hk with ⟨rfl, -⟩ | ⟨-, hk⟩
    · exact absurd hlt (Nat.lt_irrefl _)
    · exact ⟨k, hk, rfl, rfl, rfl, fun _ => ⟨rfl, rfl⟩⟩
  | push ht => exact .inl (.submitTo o _ (target?_of_plain ht) fun _ => flag?_of_plain ht)
  | @fail i g hg hb =>
    exact .inl (.setLoop hg g.finish fun hi => absurd hi (ho.building i g hg hb).2)
  | take hg _ hq ht =>
    exact .inl (.take hg hq (target?_of_plain ht) fun _ => ⟨flag?_of_plain ht, rfl⟩)

/-- Every step but a shift is calm. -/
theorem Step.calm_or_shift {p : Call → Bool} {o o' : Outline} (h : Step p o o') (ho : Placed o) :
    Calm False o o' ∨ Shift p o o' := by
  rcases h.kinds ho with h | h | h
  · exact .inl h.weaken
  · exact .inl h.calm
  · exact .inr h

end BrowserHost.Instance
