import BrowserHost.Proofs.Gap
import BrowserHost.Proofs.Occupancy

/-!
# BrowserHost.Proofs.Lockstep

Two instances that are the same but for a gap go on in lockstep: the same calls
get the same replies, and the loops beside the gap take the same turns.  The
loops in the gap take none.

* `perform_inStep`: a call does the same to both, however deep calls nest;
* `play_shifted`: so does every schedule;
* `Shifted.apart`: what is seen of the two from then on.
-/

namespace BrowserHost.Instance

open Engine Hub

/-- The two calls get the same reply, and leave the same but for the gap. -/
structure Agrees (g : Gap) (p q : Reply × Instance) : Prop where
  reply : g.reply p.1 = g.reply q.1
  shifted : Shifted g p.2 q.2

/-- What calls do is made of changes, and the same on both sides of the gap. -/
structure InStep (g : Gap) (answer : Caller) : Prop where
  leads : Answers (fun _ => true) answer
  agrees : ∀ c x y, Shifted g x y → Agrees g (answer c x) (answer c y)

section

variable {g : Gap} {answer : Caller} {x y : Instance}

/-- Loops are never taken away. -/
theorem Leads.lt_length {p : Call → Bool} {z : Instance} (h : Leads p y z) {i : Nat}
    (hi : i < y.loops.length) : i < z.loops.length := by
  obtain ⟨l, hl, -⟩ := h.changes.loop (List.getElem?_eq_getElem hi)
  exact (List.getElem?_eq_some_iff.1 hl).1

/-! ## what is told -/

theorem frameDisplayed_shifted (h : Shifted g x y) :
    Shifted g x.frameDisplayed y.frameDisplayed := by
  have hsampling : x.settings.fpsSampling = y.settings.fpsSampling := by rw [h.settings]
  have hcounted : Shifted g { x with frames := (x.frames.frame x.now).2 }
      { y with frames := (y.frames.frame y.now).2 } :=
    { h with frames := fun hrunning => by rw [h.frames hrunning, h.now] }
  unfold frameDisplayed
  rw [hsampling]
  split
  · exact hcounted.note (congrArg Entry.frame h.now)
  · exact h

theorem framesDisplayed_shifted (h : Shifted g x y) (n : Nat) :
    Shifted g (framesDisplayed n x) (framesDisplayed n y) := by
  induction n generalizing x y with
  | zero => exact h
  | succ n ih => exact ih (frameDisplayed_shifted h)

theorem announce_shifted (h : Shifted g x y) (n : Notice) :
    Shifted g (x.announce n) (y.announce n) := by
  have hnext : x.tellings + 1 = y.tellings + 1 + g.tellings := by
    rw [h.tellings]
    omega
  have hbegun : Shifted g { x with tellings := x.tellings + 1 }
      { y with tellings := y.tellings + 1 } :=
    { h with tellings := hnext }
  refine hbegun.note ?_
  rw [h.tellings]
  rfl

theorem names_setReactions (x : Instance) (name : String) (rs : List Reaction) :
    (x.setReactions name rs).observers.map (·.name) = x.observers.map (·.name) := by
  simp only [setReactions, List.map_map]
  refine List.map_congr_left fun o _ => ?_
  simp only [Function.comp_apply]
  split <;> rfl

theorem choose_shifted (h : Shifted g x y) (name : String) (n : Notice) :
    (x.choose name n).1 = (y.choose name n).1 ∧
      Shifted g (x.choose name n).2 (y.choose name n).2 := by
  unfold choose
  rw [h.reactions?]
  cases y.reactions? name with
  | none => exact ⟨rfl, h⟩
  | some rs =>
    exact ⟨rfl, { h with
      observers := by simp only [setReactions, h.observers]
      names := (names_setReactions y name _).symm ▸ h.names }⟩

theorem react_shifted (ha : InStep g answer) (h : Shifted g x y) (name : String)
    (cs : List Call) : Shifted g (react answer name x cs) (react answer name y cs) := by
  induction cs generalizing x y with
  | nil => exact h
  | cons c cs ih =>
    obtain ⟨hreply, hshifted⟩ := ha.agrees c x y h
    exact ih (hshifted.note (congrArg (Entry.answered name c) hreply))

theorem deliver_shifted (ha : InStep g answer) (h : Shifted g x y) (k : Nat) (n : Notice)
    (o : ObserverId) :
    Shifted g (deliver answer (k + g.tellings) n x o) (deliver answer k n y o) := by
  have hheard : Shifted g (x.note (.heard (k + g.tellings) o n)) (y.note (.heard k o n)) :=
    h.note rfl
  cases o with
  | quiet i => exact hheard
  | named name =>
    obtain ⟨hcalls, hchosen⟩ := choose_shifted hheard name n
    simp only [deliver]
    rw [hcalls]
    exact react_shifted ha hchosen name _

theorem deliverAll_shifted (ha : InStep g answer) (h : Shifted g x y) (k : Nat) (n : Notice)
    (os : List ObserverId) :
    Shifted g (deliverAll answer (k + g.tellings) n x os) (deliverAll answer k n y os) := by
  induction os generalizing x y with
  | nil => exact h
  | cons o os ih => exact ih (deliver_shifted ha h k n o)

theorem tell_shifted (ha : InStep g answer) (h : Shifted g x y) (n : Notice) :
    Shifted g (tell answer n x) (tell answer n y) := by
  have hdelivered := deliverAll_shifted ha (announce_shifted h n) y.tellings n (y.hub.audience n)
  unfold tell
  rw [h.tellings, h.hub.audience]
  exact (hdelivered.withHub (hdelivered.hub.publish n)).note rfl

theorem report_shifted (ha : InStep g answer) (h : Shifted g x y) (r : Report) :
    Shifted g (report answer x r) (report answer y r) := by
  cases r with
  | urlChanged u => exact tell_shifted ha (h.withUrl u) _
  | loadFinished u => exact tell_shifted ha (h.withUrl u) _
  | closureRequested => exact tell_shifted ha h _
  | frames n => exact framesDisplayed_shifted h n

/-! ## tasks -/

theorem submitTo_shifted (h : Shifted g x y) (i : Nat) (t : Task) :
    (x.submitTo (g.index i) t).1 = (y.submitTo i t).1 ∧
      Shifted g (x.submitTo (g.index i) t).2 (y.submitTo i t).2 := by
  simp only [submitTo_eq]
  rw [h.loop]
  cases y.loop? i with
  | none => exact ⟨rfl, h⟩
  | some l =>
    have haccepts : (g.renumber l).accepts = l.accepts := rfl
    simp only [Option.map_some, haccepts, g.renumber_push]
    split
    · exact ⟨rfl, (h.setLoop i _).note rfl⟩
    · exact ⟨rfl, h⟩

theorem submit_shifted (h : Shifted g x y) (t : Task) :
    (x.submit t).1 = (y.submit t).1 ∧ Shifted g (x.submit t).2 (y.submit t).2 := by
  unfold submit
  rw [h.dispatcher]
  cases y.dispatcher with
  | none => exact ⟨rfl, h⟩
  | some i => exact submitTo_shifted h i t

theorem endLoop_shifted (h : Shifted g x y) (i : Nat) (phase : Phase) :
    Shifted g (x.endLoop (g.index i) phase) (y.endLoop i phase) := by
  unfold endLoop
  rw [h.loop]
  cases y.loop? i with
  | none => exact h
  | some l => exact (h.setLoop i (l.finish phase)).note rfl

theorem setView_shifted (h : Shifted g x y) (i : Nat) (v : View) :
    Shifted g (x.setView (g.index i) v) (y.setView i v) := by
  unfold setView
  rw [h.loop]
  cases y.loop? i with
  | none => exact h
  | some l => exact (h.setLoop i { l with view := v }).note rfl

theorem block_shifted (h : Shifted g x y) (i : Nat) :
    Shifted g (x.block (g.index i)) (y.block i) := by
  unfold block
  rw [h.loop]
  cases y.loop? i with
  | none => exact h
  | some l => exact h.setLoop i { l with phase := .held }

theorem restLoop_shifted (h : Shifted g x y) (i : Nat) :
    Shifted g (x.restLoop (g.index i)) (y.restLoop i) := by
  unfold restLoop
  rw [h.loop]
  cases y.loop? i with
  | none => exact h
  | some l =>
    simp only [Option.map_some, g.renumber_rest]
    exact h.setLoop i _

theorem load_shifted (ha : InStep g answer) (h : Shifted g x y) (i : Nat) (u : String) :
    Shifted g (load answer x (g.index i) u) (load answer y i u) := by
  unfold load
  rw [h.loop]
  cases y.loop? i with
  | none => exact h
  | some l =>
    have hkind : (g.renumber l).kind = l.kind := rfl
    have hnote : Shifted g (x.note (.loaded (g.renumber l).engine u))
        (y.note (.loaded l.engine u)) := h.note rfl
    simp only [Option.map_some, hkind]
    split
    · exact endLoop_shifted hnote i _
    · split
      · exact report_shifted ha (report_shifted ha hnote _) _
      · exact hnote

theorem confirm_shifted (ha : InStep g answer) (h : Shifted g x y) (s : State) :
    Shifted g (confirm answer x s) (confirm answer y s) := by
  have hmachine := h.withMachine (y.machine.confirm s).2
  unfold confirm
  rw [h.machine]
  simp only
  split
  · exact tell_shifted ha hmachine _
  · exact hmachine

theorem runTask_shifted (ha : InStep g answer) (h : Shifted g x y) (i : Nat) (t : Task) :
    Shifted g (runTask answer x (g.index i) t) (runTask answer y i t) := by
  match t with
  | .work (.load u) => exact load_shifted ha h i u
  | .work (.view v) => exact setView_shifted h i v
  | .lifecycle s =>
    simp only [runTask]
    rw [h.hidden]
    exact confirm_shifted ha (setView_shifted h i _) s
  | .visibility v =>
    simp only [runTask]
    rw [h.machine]
    exact tell_shifted ha (setView_shifted h i _) _
  | .report r => exact report_shifted ha h r
  | .block => exact block_shifted h i

/-! ## loops -/

/-- Either both loops take a message, or neither does. -/
theorem stepLoop_shifted (ha : InStep g answer) (h : Shifted g x y) (i : Nat) :
    Option.Rel (Shifted g) (stepLoop answer x (g.index i)) (stepLoop answer y i) := by
  unfold stepLoop
  rw [h.loop]
  cases y.loop? i with
  | none => exact .none
  | some l =>
    have hphase : (g.renumber l).phase = l.phase := rfl
    have hqueue : (g.renumber l).queue = l.queue := rfl
    simp only [Option.map_some, hphase, hqueue]
    split
    · exact .some (endLoop_shifted h i _)
    · next t rest _ _ =>
      have htake : Shifted g
          ((x.setLoop (g.index i) { g.renumber l with phase := .busy, queue := rest }).note
            (.ran (g.renumber l).engine t))
          ((y.setLoop i { l with phase := .busy, queue := rest }).note (.ran l.engine t)) :=
        (h.setLoop i { l with phase := .busy, queue := rest }).note rfl
      exact .some (restLoop_shifted (runTask_shifted ha htake i t) i)
    · exact .none

theorem getD_shifted {o p : Option Instance} (h : Shifted g x y)
    (hop : Option.Rel (Shifted g) o p) : Shifted g (o.getD x) (p.getD y) := by
  cases hop with
  | none => exact h
  | some hxy => exact hxy

theorem drainLoop_shifted (ha : InStep g answer) (h : Shifted g x y) (i n : Nat) :
    Shifted g (drainLoop answer (g.index i) n x) (drainLoop answer i n y) := by
  induction n generalizing x y with
  | zero => exact h
  | succ n ih =>
    have hstep := stepLoop_shifted ha h i
    unfold drainLoop
    generalize stepLoop answer x (g.index i) = o at hstep
    generalize stepLoop answer y i = p at hstep
    cases hstep with
    | none => exact h
    | some hxy => exact ih hxy

theorem drain_shifted (ha : InStep g answer) (h : Shifted g x y) (i : Nat) :
    Shifted g (drain answer (g.index i) x) (drain answer i y) := by
  unfold drain
  rw [h.backlog, h.reach]
  exact drainLoop_shifted ha h i _

theorem tickLoop_shifted (h : Shifted g x y) (i : Nat) :
    Shifted g (x.tickLoop (g.index i)) (y.tickLoop i) := by
  unfold tickLoop
  rw [h.loop, h.now]
  cases y.loop? i with
  | none => exact h
  | some l =>
    simp only [Option.map_some, g.renumber_tick]
    exact framesDisplayed_shifted (h.setLoop i _) _

theorem stall_shifted (h : Shifted g x y) (i : Nat) :
    Shifted g (x.stall (g.index i)) (y.stall i) := by
  unfold stall
  rw [h.loop]
  cases y.loop? i with
  | none => exact h
  | some l =>
    have hphase : (g.renumber l).phase = l.phase := rfl
    simp only [Option.map_some, hphase]
    split
    · exact h.setLoop i { l with phase := .held }
    · exact h

theorem unblock_shifted (h : Shifted g x y) (i : Nat) :
    Shifted g (x.unblock (g.index i)) (y.unblock i) := by
  unfold unblock
  rw [h.loop]
  cases y.loop? i with
  | none => exact h
  | some l =>
    have hphase : (g.renumber l).phase = l.phase := rfl
    simp only [Option.map_some, hphase]
    split
    · exact h.setLoop i { l with phase := .idle }
    · exact h

theorem closeLoop_shifted (h : Shifted g x y) (i : Nat) :
    Shifted g (x.closeLoop (g.index i)) (y.closeLoop i) := by
  unfold closeLoop
  rw [h.loop]
  cases y.loop? i with
  | none => exact h
  | some l =>
    simp only [Option.map_some, g.renumber_close]
    exact h.setLoop i _

/-! ## sessions -/

theorem prepare_shifted (ha : InStep g answer) (h : Shifted g x y) (i e : Nat) (q : Preparation) :
    Shifted g (prepare answer (g.index i) (g.number e) x q) (prepare answer i e y q) := by
  cases q with
  | report r => exact report_shifted ha h r
  | submit w =>
    obtain ⟨haccepted, hsubmitted⟩ := submitTo_shifted h i (.work w)
    have hentry : g.known (.submitted (g.number e) (x.submitTo (g.index i) (.work w)).1) =
        g.entry (.submitted e (y.submitTo i (.work w)).1) := by
      rw [haccepted]
      rfl
    exact hsubmitted.note hentry

theorem prepared_shifted (ha : InStep g answer) (h : Shifted g x y) (pl : Plan) :
    Shifted g (x.prepared answer pl) (y.prepared answer pl) := by
  have hopened := h.openLoop pl.kind
  unfold prepared
  rw [h.length_eq, h.next_engine]
  generalize x.openLoop pl.kind = x' at hopened
  generalize y.openLoop pl.kind = y' at hopened
  induction pl.preparations generalizing x' y' with
  | nil => exact hopened
  | cons q qs ih => exact ih _ _ (prepare_shifted ha hopened _ _ q)

theorem built_shifted (h : Shifted g x y) (i : Nat) (pl : Plan) :
    Shifted g (x.built (g.index i) pl) (y.built i pl) := by
  unfold built
  rw [h.loop, h.now, h.settings]
  cases y.loop? i with
  | none => exact h
  | some l =>
    simp only [Option.map_some]
    split
    · exact h.setLoop i { l with phase := .idle, ticker := _ }
    · exact h.setLoop i (l.finish .refused)
    · exact h.setLoop i (l.finish .refused)

theorem frames_submitTo (x : Instance) (i : Nat) (t : Task) :
    (x.submitTo i t).2.frames = x.frames := by
  rw [submitTo_eq]
  split
  · rfl
  · split <;> rfl

/-- A session gets a loop. -/
def enter (x : Instance) (i : Nat) : Instance :=
  { x with dispatcher := some i, owned := some i, sessions := x.sessions ++ [i] }

theorem enter_shifted (h : Shifted g x y) (hframes : x.frames = y.frames) {i : Nat}
    (hi : i < y.loops.length) : Shifted g (x.enter (g.index i)) (y.enter i) := by
  have hsessions : x.sessions ++ [g.index i] = (y.sessions ++ [i]).map g.index := by
    rw [List.map_append, h.sessions]
    rfl
  exact { h with
    dispatcher := rfl
    owned := rfl
    sessions := hsessions
    frames := fun _ => hframes
    live := fun j hj => Option.some.inj hj ▸ hi }

theorem begin_shifted (h : Shifted g x y) {i e : Nat} (hi : i < (y.begin i e).loops.length) :
    Shifted g (x.begin (g.index i) (g.number e)) (y.begin i e) := by
  have hfresh : Shifted g { x with machine := x.machine.begin.2, frames := {} }
      { y with machine := y.machine.begin.2, frames := {} } :=
    { h with machine := by rw [h.machine], frames := fun _ => rfl }
  have hbegan : g.known (.began (g.number e) x.machine.begin.1) =
      g.entry (.began e y.machine.begin.1) := by
    rw [h.machine]
    rfl
  have hload := (submitTo_shifted (hfresh.note hbegan) i (.work (.load y.url))).2
  have htarget := (submitTo_shifted hload i (.lifecycle y.machine.begin.1)).2
  have hbegin : x.begin (g.index i) (g.number e) =
      (((({ x with machine := x.machine.begin.2, frames := {} }.note
        (.began (g.number e) x.machine.begin.1)).submitTo (g.index i)
          (.work (.load y.url))).2.submitTo (g.index i)
            (.lifecycle y.machine.begin.1)).2).enter (g.index i) := by
    rw [← h.url, ← h.machine]
    rfl
  rw [hbegin]
  exact enter_shifted htarget (by simp only [frames_submitTo]; rfl) hi

theorem start_agrees (ha : InStep g answer) (h : Shifted g x y) (pl : Plan) :
    Agrees g (start answer x pl) (start answer y pl) := by
  have hbuilt := built_shifted (prepared_shifted ha h pl) y.loops.length pl
  have hattempt : Shifted g { x with attempts := x.attempts + 1 }
      { y with attempts := y.attempts + 1 } := by
    have hnext : x.attempts + 1 = y.attempts + 1 + g.engines := by
      rw [h.attempts]
      omega
    exact { h with attempts := hnext, numbered := Nat.le_succ_of_le h.numbered }
  have howned : x.owned.isSome = y.owned.isSome := by rw [h.owned, Option.isSome_map]
  unfold start
  simp only [spawn_eq]
  by_cases hbusy : y.owned.isSome
  · rw [if_pos hbusy, if_pos (howned.trans hbusy)]
    exact ⟨rfl, hattempt⟩
  · have hopens := @start_opens y answer ha.leads pl (by simpa using hbusy)
    simp only [start, spawn_eq, if_neg hbusy] at hopens
    rw [if_neg hbusy, if_neg (howned ▸ hbusy), h.length_eq, h.next_engine]
    cases hfault : pl.outcome.fault? with
    | none =>
      rw [hfault] at hopens
      obtain ⟨l, hl⟩ := Option.isSome_iff_exists.1 hopens
      exact ⟨rfl, begin_shifted hbuilt (List.getElem?_eq_some_iff.1 hl).1⟩
    | some e => exact ⟨rfl, hbuilt⟩

theorem shutdown_agrees (ha : InStep g answer) (h : Shifted g x y) :
    Agrees g (shutdown answer x) (shutdown answer y) := by
  unfold shutdown
  rw [h.owned]
  cases y.owned with
  | none => exact ⟨rfl, h⟩
  | some i =>
    have hfree : Shifted g { x with owned := none, dispatcher := none, frames := {} }
        { y with owned := none, dispatcher := none, frames := {} } :=
      { h with owned := rfl, dispatcher := rfl, frames := fun _ => rfl, live := nofun }
    have hended : g.known (.ended (x.engineOf (g.index i))) = g.entry (.ended (y.engineOf i)) := by
      rw [h.engineOf]
      rfl
    simp only [Option.map_some, stopLoop_snd]
    exact ⟨rfl, drain_shifted ha (closeLoop_shifted (hfree.note hended) i) i⟩

/-! ## calls -/

theorem mention_shifted (h : Shifted g x y) (name : String) (rs : List Reaction) :
    Shifted g (x.mention name rs) (y.mention name rs) := by
  unfold mention
  rw [h.reactions?]
  cases hnew : y.reactions? name with
  | some _ => exact h
  | none =>
    have hfresh : ∀ o ∈ y.observers, o.name ≠ name := by
      simpa [Instance.reactions?] using hnew
    have hnames : ((y.observers ++ [Observer.mk name rs]).map (·.name)).Nodup := by
      rw [List.map_append, List.nodup_append]
      refine ⟨h.names, List.pairwise_singleton _ _, fun a ha b hb => ?_⟩
      obtain ⟨o, ho, rfl⟩ := List.mem_map.1 ha
      obtain rfl := List.mem_singleton.1 hb
      exact hfresh o ho
    exact { h with observers := by simp only [h.observers], names := hnames }

theorem register_agrees (h : Shifted g x y) (role : Role) (o : ObserverId) :
    Agrees g (x.register role o) (y.register role o) := by
  unfold Instance.register Hub.register
  rw [h.hub.isOpen_eq, h.hub.registry]
  split
  · cases (y.hub.registry role).register o with
    | ok r => exact ⟨rfl, h.withHub (h.hub.setRegistry r role)⟩
    | error e => exact ⟨rfl, h⟩
  · exact ⟨rfl, h⟩

theorem unregister_agrees (h : Shifted g x y) (role : Role) (o : ObserverId) :
    Agrees g (x.unregister role o) (y.unregister role o) := by
  unfold Instance.unregister Hub.unregister
  rw [h.hub.isOpen_eq, h.hub.registry]
  split
  · cases (y.hub.registry role).unregister o with
    | ok r => exact ⟨rfl, h.withHub (h.hub.setRegistry r role)⟩
    | error e => exact ⟨rfl, h⟩
  · exact ⟨rfl, h⟩

theorem subscribe_agrees (h : Shifted g x y) (id : String) :
    Agrees g (x.subscribe id) (y.subscribe id) := by
  unfold Instance.subscribe
  rw [h.hub.isOpen_eq]
  split
  · exact ⟨rfl, h.withHub (h.hub.subscribe id)⟩
  · exact ⟨rfl, h⟩

theorem unsubscribe_agrees (h : Shifted g x y) (id : String) :
    Agrees g (x.unsubscribe id) (y.unsubscribe id) := by
  refine ⟨?_, h.withHub (h.hub.unsubscribe id)⟩
  simp only [Instance.unsubscribe, Channel.unsubscribe, h.hub.isSome_place?]

/-- What is read is the same, unless that is disregarded. -/
theorem receive_agrees (h : Shifted g x y) (id : String) (n : Nat) :
    Agrees g (x.receive id n) (y.receive id n) := by
  obtain ⟨hsome, hreads, hhub⟩ := h.hub.receive id n
  refine ⟨?_, h.withHub hhub⟩
  simp only [Instance.receive]
  cases hdeaf : g.deaf with
  | false => rw [hreads hdeaf]
  | true =>
    cases hx : (x.hub.channel.receive id n).1 <;> cases hy : (y.hub.channel.receive id n).1 <;>
      simp_all [Gap.reply]

theorem request_agrees (h : Shifted g x y) (c : Command) :
    Agrees g (x.request c) (y.request c) := by
  unfold request
  rw [h.machine]
  cases y.machine.request c with
  | error e => exact ⟨rfl, h⟩
  | ok r =>
    have hnoted : Shifted g ({ x with machine := r.2 }.note (.requested c r.1.next))
        ({ y with machine := r.2 }.note (.requested c r.1.next)) :=
      (h.withMachine r.2).note rfl
    simp only
    split
    · exact ⟨rfl, (submit_shifted hnoted _).2⟩
    · exact ⟨rfl, hnoted⟩

theorem setUrl_shifted (h : Shifted g x y) (url : String) :
    Shifted g (x.setUrl url) (y.setUrl url) := by
  have hnoted : Shifted g ({ x with url := url }.note (.navigated url))
      ({ y with url := url }.note (.navigated url)) := (h.withUrl url).note rfl
  exact (submit_shifted hnoted _).2

theorem hide_shifted (h : Shifted g x y) (hidden : Bool) :
    Shifted g (x.hide hidden) (y.hide hidden) := by
  have hflip : Shifted g { x with hidden := hidden } { y with hidden := hidden } :=
    { h with hidden := rfl }
  have hflipped : Shifted g ({ x with hidden := hidden }.note (.flipped hidden))
      ({ y with hidden := hidden }.note (.flipped hidden)) := hflip.note rfl
  have hidle : x.dispatcher.isNone = y.dispatcher.isNone := by
    rw [h.dispatcher, Option.isNone_map]
  unfold hide
  rw [hidle, h.hidden]
  split
  · exact h
  · exact (submit_shifted hflipped _).2

theorem emit_agrees (ha : InStep g answer) (h : Shifted g x y) (r : Report) (k : Option Nat) :
    Agrees g (emit answer x r k) (emit answer y r k) := by
  have hwaits (i : Nat) : (x.loop? (g.index i)).any (fun l => l.accepts && l.phase == .idle) =
      (y.loop? i).any fun l => l.accepts && l.phase == .idle := by
    rw [h.loop]
    cases y.loop? i <;> rfl
  unfold emit
  rw [h.loopOf?, h.dispatcher]
  cases y.loopOf? k with
  | none => exact ⟨rfl, h⟩
  | some j =>
    cases y.dispatcher with
    | none => exact ⟨rfl, report_shifted ha h r⟩
    | some i =>
      simp only [Option.map_some, hwaits]
      split
      · exact ⟨rfl, drain_shifted ha (submitTo_shifted h i _).2 i⟩
      · exact ⟨rfl, report_shifted ha h r⟩

theorem hold_agrees (ha : InStep g answer) (h : Shifted g x y) :
    Agrees g (hold answer x) (hold answer y) := by
  have hobeys (z : Instance) : z.Obeys fun _ => true := fun _ _ => Reaction.everyAll_true _
  unfold hold
  rw [h.holding, h.dispatcher]
  cases y.holding with
  | some j => exact ⟨rfl, h⟩
  | none =>
    cases hi : y.dispatcher with
    | none => exact ⟨rfl, h⟩
    | some i =>
      have hqueued : Leads (fun _ => true) y (y.submitTo i .block).2 := .ofMove (.hold rfl hi)
      have hlt := (hqueued.trans (drain_leads ha.leads i (hobeys _))).lt_length (h.live i hi)
      obtain ⟨haccepted, hsubmitted⟩ := submitTo_shifted h i .block
      simp only [Option.map_some, Option.map_none]
      generalize x.submitTo (g.index i) .block = p at haccepted hsubmitted
      generalize y.submitTo i .block = q at haccepted hsubmitted hlt
      obtain ⟨b, x'⟩ := p
      obtain ⟨b', y'⟩ := q
      obtain rfl : b = b' := haccepted
      cases b with
      | false => exact ⟨rfl, hsubmitted⟩
      | true =>
        exact ⟨rfl, { drain_shifted ha hsubmitted i with
          holding := rfl
          held := fun j hj => Option.some.inj hj ▸ hlt }⟩

theorem release_agrees (h : Shifted g x y) : Agrees g x.release y.release := by
  have hfree : Shifted g { x with holding := none } { y with holding := none } :=
    { h with holding := rfl, held := nofun }
  unfold release
  rw [h.holding]
  cases y.holding with
  | none => exact ⟨rfl, h⟩
  | some i => exact ⟨rfl, unblock_shifted hfree i⟩

theorem submitWork_agrees (h : Shifted g x y) (k : Nat) (w : Work) :
    Agrees g (x.submitWork k w) (y.submitWork k w) := by
  unfold submitWork
  rw [h.session?]
  cases y.session? k with
  | none => exact ⟨rfl, h⟩
  | some i =>
    obtain ⟨haccepted, hsubmitted⟩ := submitTo_shifted h i (.work w)
    exact ⟨congrArg (fun b => g.reply (.flag b)) haccepted, hsubmitted⟩

theorem sessionClosed_eq (h : Shifted g x y) (k : Nat) : x.sessionClosed k = y.sessionClosed k := by
  unfold sessionClosed
  rw [h.session?]
  cases y.session? k with
  | none => rfl
  | some i =>
    simp only [Option.map_some, Option.bind_some]
    rw [h.loop]
    cases y.loop? i <;> rfl

theorem callAll_shifted (ha : InStep g answer) (h : Shifted g x y) (cs : List Call) :
    Shifted g (callAll answer x cs) (callAll answer y cs) := by
  induction cs generalizing x y with
  | nil => exact h
  | cons c cs ih => exact ih (ha.agrees c x y h).shifted

theorem performWith_agrees (ha : InStep g answer) (c : Call) (h : Shifted g x y) :
    Agrees g (performWith answer c x) (performWith answer c y) := by
  cases c with
  | register role name rs => exact register_agrees (mention_shifted h name rs) role _
  | registerQuiet =>
    have hnext : Shifted g { x with quiet := x.quiet + 1 } { y with quiet := y.quiet + 1 } :=
      { h with quiet := congrArg (· + 1) h.quiet }
    simp only [performWith, registerQuiet]
    rw [h.quiet] at hnext ⊢
    exact register_agrees hnext .lifecycle _
  | unregister role name rs => exact unregister_agrees (mention_shifted h name rs) role _
  | notify n =>
    simp only [performWith]
    rw [h.hub.isOpen_eq]
    split
    · exact ⟨rfl, tell_shifted ha h n⟩
    · exact ⟨rfl, h⟩
  | dropHub =>
    refine ⟨?_, h.withHub h.hub.drop⟩
    simp only [performWith, dropHub, h.hub.isOpen_eq]
  | subscribe id => exact subscribe_agrees h id
  | unsubscribe id => exact unsubscribe_agrees h id
  | receive id n => exact receive_agrees h id n
  | start pl => exact start_agrees ha h pl
  | shutdown => exact shutdown_agrees ha h
  | suspend | resume | request c => exact request_agrees h _
  | setUrl url => exact ⟨rfl, setUrl_shifted h url⟩
  | hide hidden => exact ⟨rfl, hide_shifted h hidden⟩
  | dispatch w =>
    obtain ⟨haccepted, hsubmitted⟩ := submit_shifted h (.work w)
    exact ⟨congrArg (fun b => g.reply (.flag b)) haccepted, hsubmitted⟩
  | submit k w => exact submitWork_agrees h k w
  | isClosed k => exact ⟨congrArg g.reply (sessionClosed_eq h k), h⟩
  | emit r k => exact emit_agrees ha h r k
  | hold => exact hold_agrees ha h
  | release => exact release_agrees h
  | advance ns => exact ⟨rfl, { h with now := congrArg (· + ns) h.now }⟩
  | settings => exact ⟨congrArg (fun s => g.reply (.settings s)) h.settings, h⟩
  | read => exact ⟨congrArg (fun s => g.reply (.status s)) h.status, h⟩
  | «repeat» n cs => exact ⟨rfl, callAll_shifted ha h _⟩

end

/-- A call does the same to both, however deep calls nest. -/
theorem perform_inStep (g : Gap) (depth : Nat) : InStep g (perform depth) := by
  induction depth with
  | zero => exact ⟨perform_leads _ 0, fun _ _ _ h => ⟨rfl, h⟩⟩
  | succ depth ih =>
    exact ⟨perform_leads _ (depth + 1), fun c _ _ h => performWith_agrees ih c h⟩

theorem call_inStep (g : Gap) : InStep g call := by
  refine ⟨call_leads _, fun c x y h => ?_⟩
  unfold call
  rw [h.reach]
  exact (perform_inStep g _).agrees c x y h

/-! ## schedules -/

section

variable {g : Gap} {x y : Instance}

/-- A loop that never had an engine takes no turn. -/
theorem turn_refused {i : Nat} {l : Loop} (hl : x.loop? i = some l) (hp : l.phase = .refused) :
    x.turn (.message i) = x ∧ x.turn (.tick i) = x ∧ x.turn (.stall i) = x ∧
      x.turn (.goOn i) = x := by
  refine ⟨?_, ?_, ?_, ?_⟩
  · simp [turn, stepLoop, hl, hp]
  · simp [turn, tickLoop, hl, Loop.tick, hp, framesDisplayed, setLoop_self hl]
  · simp [turn, stall, hl, hp]
  · simp [turn, unblock, hl, hp]

/-- The turns of the loops in the gap pass, and all others do the same to both. -/
theorem turn_shifted (h : Shifted g x y) (t : Turn) :
    Shifted g (x.turn t) ((g.turn? t).elim y y.turn) := by
  have hpass {i : Nat} (hi : g.index? i = none) :
      x.turn (.message i) = x ∧ x.turn (.tick i) = x ∧ x.turn (.stall i) = x ∧
        x.turn (.goOn i) = x := by
    obtain ⟨hle, hlt⟩ := g.index?_eq_none hi
    obtain ⟨l, hl, hp⟩ := h.gap i hle hlt
    exact turn_refused hl hp
  cases t with
  | call c => exact ((call_inStep g).agrees c x y h).shifted
  | message i =>
    simp only [Gap.turn?]
    cases hi : g.index? i with
    | none =>
      rw [(hpass hi).1]
      exact h
    | some j =>
      rw [g.index?_eq_some hi]
      exact getD_shifted h (stepLoop_shifted (call_inStep g) h j)
  | tick i =>
    simp only [Gap.turn?]
    cases hi : g.index? i with
    | none =>
      rw [(hpass hi).2.1]
      exact h
    | some j =>
      rw [g.index?_eq_some hi]
      exact tickLoop_shifted h j
  | stall i =>
    simp only [Gap.turn?]
    cases hi : g.index? i with
    | none =>
      rw [(hpass hi).2.2.1]
      exact h
    | some j =>
      rw [g.index?_eq_some hi]
      exact stall_shifted h j
  | goOn i =>
    simp only [Gap.turn?]
    cases hi : g.index? i with
    | none =>
      rw [(hpass hi).2.2.2]
      exact h
    | some j =>
      rw [g.index?_eq_some hi]
      exact unblock_shifted h j

/-- Every schedule does the same to both. -/
theorem play_shifted (h : Shifted g x y) (ts : List Turn) :
    Shifted g (x.play ts) (y.play (ts.filterMap g.turn?)) := by
  induction ts generalizing x y with
  | nil => exact h
  | cons t ts ih =>
    have hturn := ih (turn_shifted h t)
    rw [List.filterMap_cons]
    cases ht : g.turn? t with
    | none =>
      rw [ht] at hturn
      exact hturn
    | some u =>
      rw [ht] at hturn
      exact hturn

end

end BrowserHost.Instance
