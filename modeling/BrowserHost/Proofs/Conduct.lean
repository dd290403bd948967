import BrowserHost.Proofs.Desk

/-!
# BrowserHost.Proofs.Conduct

Observers that do anything at all with the hub.  An instance knows what each of
its observers will do on hearing a notice; here observers change their minds
each time one of them has made a call, in view of everything that has happened
so far.  That covers every callback that returns: what it does next may depend
on all replies, on the registries and on what others did in between.

* `performAs`: what a call does among such observers;
* `call_eq_performAs`, `react_call`: observers that stick to their reactions are a
  special case, so what holds of `performAs` holds of `call`.
-/

namespace BrowserHost.Instance

open Hub

section

variable {x : Instance} {c : Call}

/-! ## conduct -/

/-- What observers will do from now on, given all that has happened. -/
abbrev Conduct := Instance → List Observer

/-- What a call does among observers of that conduct, when calls may nest to
the given depth: the innermost ones meet silent observers. -/
def performAs (conduct : Conduct) : Nat → Caller
  | 0, c, x =>
    let (r, y) := performWith idle c { x with observers := [] }
    (r, { y with observers := conduct y })
  | depth + 1, c, x =>
    let (r, y) := performWith (performAs conduct depth) c x
    (r, { y with observers := conduct y })

/-- Observers of that conduct only call the hub, as long as others do. -/
def Conduct.CallsHub (conduct : Conduct) : Prop :=
  ∀ z : Instance, z.Obeys Call.isHub →
    ∀ o ∈ conduct z, Reaction.everyAll Call.isHub o.reactions

/-- Observers keep to the reactions they have left. -/
def steady : Conduct := fun z => z.observers

theorem steady_callsHub : steady.CallsHub :=
  fun _ hz => hz

/-! ## steady observers -/

/-- Observers with names of their own that only call the hub. -/
structure Ready (x : Instance) : Prop where
  names : (x.observers.map (·.name)).Nodup
  obeys : x.Obeys Call.isHub

/-- The bound on the calls that observers can still make, observer by observer. -/
def reachOf (os : List Observer) : Nat :=
  os.foldr (fun o n => Reaction.weights o.reactions + n) 0

theorem reachOf_cons (o : Observer) (os : List Observer) :
    reachOf (o :: os) = Reaction.weights o.reactions + reachOf os := rfl

theorem reachOf_append (os ps : List Observer) :
    reachOf (os ++ ps) = reachOf os + reachOf ps := by
  induction os with
  | nil => simp [reachOf]
  | cons o os ih => simp only [List.cons_append, reachOf_cons, ih]; omega

/-- What an observer chooses is paid for by the reactions it gives up. -/
theorem reachOf_spend (n : Notice) {os : List Observer} (h : (os.map (·.name)).Nodup)
    {q : Observer} {name : String} (hq : os.find? (·.name == name) = some q) :
    Call.weights (Reaction.choose n q.reactions).1 +
        reachOf (os.map fun o =>
          if o.name = name then { o with reactions := (Reaction.choose n q.reactions).2 } else o) ≤
      reachOf os := by
  induction os with
  | nil => simp at hq
  | cons o os ih =>
    obtain ⟨hfresh, hrest⟩ := List.nodup_cons.1 h
    rw [List.map_cons, reachOf_cons, reachOf_cons]
    by_cases ho : o.name = name
    · obtain rfl : o = q := by simpa [ho] using hq
      have hsame : (os.map fun o' => if o'.name = name then
          { o' with reactions := (Reaction.choose n o.reactions).2 } else o') = os := by
        refine (List.map_congr_left fun o' ho' => if_neg fun hname => hfresh ?_).trans
          (List.map_id os)
        exact List.mem_map.2 ⟨o', ho', hname.trans ho.symm⟩
      have := Reaction.weights_choose n o.reactions
      rw [hsame, if_pos ho]
      simp only
      omega
    · rw [List.find?_cons_of_neg (by simpa using ho)] at hq
      have := ih hrest hq
      rw [if_neg ho]
      omega

theorem Ready.choose (h : Ready x) (name : String) (n : Notice) :
    Ready (x.choose name n).2 ∧
      Call.weights (x.choose name n).1 + (x.choose name n).2.reach ≤ x.reach := by
  refine ⟨⟨?_, (choose_extends x name n).obeys h.obeys⟩, ?_⟩
  · unfold Instance.choose
    cases x.reactions? name with
    | none => exact h.names
    | some rs =>
      have hnames : ∀ rest : List Reaction, ((x.setReactions name rest).observers.map (·.name)) =
          x.observers.map (·.name) := by
        intro rest
        simp only [setReactions, List.map_map]
        refine List.map_congr_left fun o _ => ?_
        simp only [Function.comp_apply]
        split <;> rfl
      simp only [hnames]
      exact h.names
  · unfold Instance.choose
    cases hrs : x.reactions? name with
    | none => simp [Call.weights]
    | some rs =>
      obtain ⟨q, hq, rfl⟩ := Option.map_eq_some_iff.1 hrs
      exact reachOf_spend n h.names hq

theorem Ready.note (h : Ready x) (e : Entry) : Ready (x.note e) :=
  ⟨h.names, h.obeys⟩

/-- An observer that is mentioned brings its own reactions and nothing else. -/
theorem Ready.mention (h : Ready x) (name : String) {rs : List Reaction}
    (hrs : Reaction.everyAll Call.isHub rs) :
    Ready (x.mention name rs) ∧ (x.mention name rs).reach ≤ Reaction.weights rs + x.reach := by
  refine ⟨⟨?_, (mention_extends x name hrs).obeys h.obeys⟩, ?_⟩
  · unfold Instance.mention
    cases hr : x.reactions? name with
    | some _ => exact h.names
    | none =>
      have hnone := List.find?_eq_none.1 (Option.map_eq_none_iff.1 hr)
      simp only [List.map_append, List.map_cons, List.map_nil]
      refine List.nodup_append.2 ⟨h.names, by simp, fun a ha b hb => ?_⟩
      obtain ⟨o, ho, rfl⟩ := List.mem_map.1 ha
      rw [List.mem_singleton.1 hb]
      simpa using hnone o ho
  · unfold Instance.mention
    cases x.reactions? name with
    | some _ => simp
    | none =>
      have hreach : reachOf (x.observers ++ [⟨name, rs⟩]) ≤ Reaction.weights rs + x.reach := by
        rw [reachOf_append, Nat.add_comm]
        exact Nat.le_refl _
      exact hreach

/-- Up to that weight, calls do what they do among steady observers, and pay
for what observers will do later. -/
def Spends (depth : Nat) (answer answer' : Caller) : Prop :=
  ∀ c x, Ready x → c.every Call.isHub → c.weight + x.reach ≤ depth →
    answer c x = answer' c x ∧ Ready (answer c x).2 ∧ (answer c x).2.reach ≤ c.weight + x.reach

variable {depth : Nat} {answer answer' : Caller}

theorem react_spends (h : Spends depth answer answer') (name : String) {cs : List Call}
    (hx : Ready x) (hcs : Call.everyAll Call.isHub cs) (hle : Call.weights cs + x.reach ≤ depth) :
    react answer name x cs = react answer' name x cs ∧ Ready (react answer name x cs) ∧
      (react answer name x cs).reach ≤ Call.weights cs + x.reach := by
  induction cs generalizing x with
  | nil => exact ⟨rfl, hx, by simp [Call.weights, react]⟩
  | cons c cs ih =>
    simp only [Call.everyAll, Bool.and_eq_true] at hcs
    rw [Call.weights] at hle
    obtain ⟨heq, hy, hreach⟩ := h c x hx hcs.1 (by omega)
    have hnote : ((answer c x).2.note (.answered name c (answer c x).1)).reach =
        (answer c x).2.reach := rfl
    obtain ⟨heq', hy', hreach'⟩ :=
      ih (hy.note (.answered name c (answer c x).1)) hcs.2 (by omega)
    simp only [react, ← heq]
    exact ⟨heq', hy', by rw [Call.weights]; omega⟩

theorem deliver_spends (h : Spends depth answer answer') (k : Nat) (n : Notice) (o : ObserverId)
    (hx : Ready x) (hle : x.reach ≤ depth) :
    deliver answer k n x o = deliver answer' k n x o ∧ Ready (deliver answer k n x o) ∧
      (deliver answer k n x o).reach ≤ x.reach := by
  have hnote : (x.note (.heard k o n)).reach = x.reach := rfl
  cases o with
  | quiet i => exact ⟨rfl, hx.note _, Nat.le_refl _⟩
  | named name =>
    obtain ⟨hy, hpaid⟩ := (hx.note (.heard k (.named name) n)).choose name n
    obtain ⟨heq, hz, hreach⟩ := react_spends h name hy
      (choose_everyAll (hx.note (.heard k (.named name) n)).obeys name n) (by omega)
    exact ⟨heq, hz, by simp only [deliver]; omega⟩

theorem deliverAll_spends (h : Spends depth answer answer') (k : Nat) (n : Notice)
    (os : List ObserverId) (hx : Ready x) (hle : x.reach ≤ depth) :
    deliverAll answer k n x os = deliverAll answer' k n x os ∧
      Ready (deliverAll answer k n x os) ∧ (deliverAll answer k n x os).reach ≤ x.reach := by
  induction os generalizing x with
  | nil => exact ⟨rfl, hx, Nat.le_refl _⟩
  | cons o os ih =>
    obtain ⟨heq, hy, hreach⟩ := deliver_spends h k n o hx hle
    obtain ⟨heq', hz, hreach'⟩ := ih hy (by omega)
    simp only [deliverAll_cons, ← heq]
    exact ⟨heq', hz, by omega⟩

theorem Ready.edit (hx : Ready x) (f : Hub → Except Fault Hub) :
    Ready (edit f x).2 ∧ (edit f x).2.reach = x.reach := by
  obtain ⟨h, hframe⟩ := edit_frame f x
  rw [hframe]
  exact ⟨⟨hx.names, hx.obeys⟩, rfl⟩

/-- A call that makes no others pays for the reactions it brings along. -/
theorem direct_spends (hc : c.every Call.isHub) (hdirect : c.isDirect) (hx : Ready x) :
    Ready (performWith idle c x).2 ∧ (performWith idle c x).2.reach + 2 ≤ c.weight + x.reach := by
  have hsame : x.reach + 2 ≤ 2 + x.reach := Nat.le_of_eq (Nat.add_comm _ _)
  cases c with
  | register role name rs =>
    simp only [Call.every, Bool.and_eq_true] at hc
    obtain ⟨hm, hreach⟩ := hx.mention name hc.2
    obtain ⟨hy, heq⟩ := hm.edit (·.register role (.named name))
    have hspent : ((x.mention name rs).register role (.named name)).2.reach ≤
        Reaction.weights rs + x.reach := Nat.le_trans (Nat.le_of_eq heq) hreach
    simp only [performWith, Call.weight]
    exact ⟨hy, by omega⟩
  | unregister role name rs =>
    simp only [Call.every, Bool.and_eq_true] at hc
    obtain ⟨hm, hreach⟩ := hx.mention name hc.2
    obtain ⟨hy, heq⟩ := hm.edit (·.unregister role (.named name))
    have hspent : ((x.mention name rs).unregister role (.named name)).2.reach ≤
        Reaction.weights rs + x.reach := Nat.le_trans (Nat.le_of_eq heq) hreach
    simp only [performWith, Call.weight]
    exact ⟨hy, by omega⟩
  | registerQuiet =>
    have hnext : Ready { x with quiet := x.quiet + 1 } := ⟨hx.names, hx.obeys⟩
    obtain ⟨hy, heq⟩ := hnext.edit (·.register .lifecycle (.quiet x.quiet))
    have hspent : x.registerQuiet.2.reach = x.reach := heq
    simp only [performWith, Call.weight]
    exact ⟨hy, by omega⟩
  | subscribe id =>
    simp only [performWith, subscribe, Call.weight]
    split <;> exact ⟨⟨hx.names, hx.obeys⟩, hsame⟩
  | dropHub | unsubscribe id | receive id m =>
    simp only [Call.weight]
    exact ⟨⟨hx.names, hx.obeys⟩, hsame⟩
  | _ => simp [Call.isDirect] at hdirect

theorem performWith_spends (h : Spends depth answer answer') :
    Spends (depth + 1) (performWith answer) (performWith answer') := by
  intro c x hx hc hle
  rcases Call.isHub_cases (Call.isHub_of_every hc) with ⟨n, rfl⟩ | hdirect
  · have hweight : (Call.notify n).weight = 2 := by simp [Call.weight]
    have hann : (x.announce n).reach = x.reach := rfl
    obtain ⟨heq, hy, hreach⟩ := deliverAll_spends h x.tellings n (x.hub.audience n)
      (x := x.announce n) ⟨hx.names, hx.obeys⟩ (by omega)
    simp only [performWith]
    split
    · refine ⟨by simp only [tell, heq], ⟨hy.names, hy.obeys⟩, ?_⟩
      have : (tell answer n x).reach =
        (deliverAll answer x.tellings n (x.announce n) (x.hub.audience n)).reach := rfl
      simp only
      omega
    · exact ⟨rfl, hx, by simp⟩
  · have := direct_spends hc hdirect hx
    rw [performWith_direct answer hdirect, performWith_direct answer' hdirect]
    exact ⟨rfl, this.1, by omega⟩

/-- Calls do not come to the bottom of their depth as long as it is no less than
what they weigh. -/
theorem perform_spends {k depth depth' : Nat} (h : k ≤ depth) (h' : k ≤ depth') :
    Spends k (perform depth) (performAs steady depth') := by
  -- on the weight that is left: a call that nests pays for those it leads to
  induction k generalizing depth depth' with
  | zero => exact fun c x _ _ hle => absurd hle (by have := weight_pos c; omega)
  | succ k ih =>
    obtain ⟨d, rfl⟩ : ∃ d, depth = d + 1 := ⟨depth - 1, by omega⟩
    obtain ⟨d', rfl⟩ : ∃ d, depth' = d + 1 := ⟨depth' - 1, by omega⟩
    exact performWith_spends (ih (Nat.le_of_succ_le_succ h) (Nat.le_of_succ_le_succ h'))

theorem call_spends (depth : Nat) : Spends depth call (performAs steady depth) :=
  fun c x hx hc hle => perform_spends (Nat.le_refl _) hle c x hx hc (Nat.le_refl _)

/-- Observers that keep to their reactions are a special case. -/
theorem call_eq_performAs (hx : Ready x) (hc : c.every Call.isHub)
    (hle : c.weight + x.reach ≤ depth) : call c x = performAs steady depth c x :=
  (call_spends depth c x hx hc hle).1

/-- So are runs of calls among them. -/
theorem react_call (hx : Ready x) {cs : List Call} (hcs : Call.everyAll Call.isHub cs)
    (hle : Call.weights cs + x.reach ≤ depth) (name : String) :
    react call name x cs = react (performAs steady depth) name x cs :=
  (react_spends (call_spends depth) name hx hcs hle).1

end

end BrowserHost.Instance
