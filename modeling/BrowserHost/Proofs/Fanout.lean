import BrowserHost.Proofs.Conduct

/-!
# BrowserHost.Proofs.Fanout

Tellings within tellings.  The journal is read as a log: who heard what in which
telling, what observers called and were answered, and when tellings ended.  The
hub at any moment is the one that a replay of the log so far arrives at, so what
the log says of a telling can be held against the registries as they were when
it started, however deep it is nested and whatever observers do.

* `Account`: what the log says of a piece of a run;
* `performAs_reports`: every call comes with such an account;
* `telling_reaches_audience`: a telling reaches those that were registered when
  it started, each of them once, and then goes out once.
-/

namespace BrowserHost.Instance

open Hub

/-! ## replaying a log -/

/-- What an entry says was done to the hub. -/
def Entry.replay (x : Instance) : Entry → Instance
  | .answered _ c _ => if c.isDirect then (performWith idle c x).2 else x
  | .told _ n => { x with hub := x.hub.publish n }
  | _ => x

/-- What the entries of a log, oldest first, say was done to the hub. -/
def replay (x : Instance) (es : List Entry) : Instance :=
  es.foldl Entry.replay x

section

variable {x y : Instance}

theorem replay_append (x : Instance) (es fs : List Entry) :
    replay x (es ++ fs) = replay (replay x es) fs :=
  List.foldl_append

theorem Entry.replay_desk (h : x.desk = y.desk) (e : Entry) :
    (Entry.replay x e).desk = (Entry.replay y e).desk := by
  cases e with
  | answered name c r =>
    simp only [Entry.replay]
    split
    · next hc => exact (direct_desk hc h).2
    · exact h
  | told k n =>
    obtain ⟨hhub, hquiet⟩ := Prod.mk.inj h
    simp [Entry.replay, desk, hhub, hquiet]
  | _ => exact h

theorem replay_desk (h : x.desk = y.desk) (es : List Entry) :
    (replay x es).desk = (replay y es).desk := by
  induction es generalizing x y with
  | nil => exact h
  | cons e es ih => exact ih (Entry.replay_desk h e)

theorem Entry.replay_proper (hp : x.hub.Proper) (e : Entry) :
    (Entry.replay x e).hub.Proper := by
  cases e with
  | answered name c r =>
    simp only [Entry.replay]
    split
    · next hc => exact direct_proper hc hp
    · exact hp
  | told k n => exact ⟨hp.state, hp.lifecycle⟩
  | _ => exact hp

/-- Registries hold nobody twice at any time. -/
theorem replay_proper (hp : x.hub.Proper) (es : List Entry) : (replay x es).hub.Proper := by
  induction es generalizing x with
  | nil => exact hp
  | cons e es ih => exact ih (Entry.replay_proper hp e)

end

/-! ## reading a log -/

/-- The number of the telling that an entry is about. -/
def Entry.number? : Entry → Option Nat
  | .telling k _ | .heard k _ _ | .told k _ => some k
  | _ => none

/-- Who heard what in the telling of that number, in order. -/
def hearers (k : Nat) (es : List Entry) : List (ObserverId × Notice) :=
  es.filterMap fun
    | .heard j o n => if j = k then some (o, n) else none
    | _ => none

/-- The part `mid` of a log is all there is of the telling of `n` with the
number `k`, and it reaches `audience`. -/
structure Reaches (k : Nat) (n : Notice) (audience : List ObserverId)
    (before mid rest : List Entry) : Prop where
  /-- The audience hears the notice, in order, and nobody else does. -/
  heard : hearers k mid = audience.map (·, n)
  /-- Neither earlier nor later does anyone hear anything in this telling. -/
  apart : ∀ e ∈ before ++ rest, e.number? ≠ some k
  /-- What is told meanwhile is told in tellings that begin later. -/
  inside : ∀ e ∈ mid, ∀ j, e.number? = some j → (∃ o, e = .heard k o n) ∨ k < j
  /-- Those come to their end earlier. -/
  whole : ∀ j m, .telling j m ∈ mid ↔ .told j m ∈ mid

/-- What a log `es` says of what happened between `x` and `y`, maybe while an
observer was told of `outer`. -/
structure Account (outer : Option (Nat × Notice)) (x y : Instance) (es : List Entry) : Prop where
  journal : y.journal = es.reverse ++ x.journal
  desk : (replay x es).desk = y.desk
  grows : x.tellings ≤ y.tellings
  numbers : ∀ e ∈ es, ∀ j, e.number? = some j →
    (∃ k o n, outer = some (k, n) ∧ e = .heard k o n) ∨ (x.tellings ≤ j ∧ j < y.tellings)
  /-- Observers call the hub, and what they are answered is what the hub says. -/
  replies : ∀ before name c r rest, es = before ++ .answered name c r :: rest →
    c.isHub ∧ (c.isDirect → r = (performWith idle c (replay x before)).1)
  /-- Tellings reach those that are registered when they start. -/
  tellings : ∀ before k n rest, es = before ++ .telling k n :: rest →
    ∃ mid rest', rest = mid ++ .told k n :: rest' ∧
      Reaches k n ((replay x before).hub.audience n) before mid rest'
  whole : ∀ k n, .telling k n ∈ es ↔ .told k n ∈ es

theorem hearers_append (k : Nat) (es fs : List Entry) :
    hearers k (es ++ fs) = hearers k es ++ hearers k fs :=
  List.filterMap_append

/-- Nobody hears anything in a telling that a log is not about. -/
theorem hearers_eq_nil {k : Nat} {es : List Entry} (h : ∀ e ∈ es, e.number? ≠ some k) :
    hearers k es = [] := by
  refine List.filterMap_eq_nil_iff.2 fun e he => ?_
  cases e with
  | heard j o n =>
    have hne : j ≠ k := fun hjk => h _ he (by simp [Entry.number?, hjk])
    simp [hne]
  | _ => rfl

/-- A telling is still all there is of it in a longer log that is otherwise about
other tellings. -/
theorem Reaches.widen {k : Nat} {n : Notice} {os : List ObserverId}
    {before mid rest : List Entry} (h : Reaches k n os before mid rest) (pre post : List Entry)
    (hapart : ∀ e ∈ pre ++ post, e.number? ≠ some k) :
    Reaches k n os (pre ++ before) mid (rest ++ post) where
  heard := h.heard
  apart e he := by
    simp only [List.mem_append] at he hapart
    rcases he with (he | he) | he | he
    · exact hapart e (.inl he)
    · exact h.apart e (List.mem_append_left _ he)
    · exact h.apart e (List.mem_append_right _ he)
    · exact hapart e (.inr he)
  inside := h.inside
  whole := h.whole

/-- An entry of a log that is made of two parts is in one of them. -/
theorem split_append {es fs before rest : List Entry} {e : Entry}
    (h : es ++ fs = before ++ e :: rest) :
    (∃ r, es = before ++ e :: r ∧ rest = r ++ fs) ∨
      (∃ b, before = es ++ b ∧ fs = b ++ e :: rest) := by
  rcases List.append_eq_append_iff.1 h with ⟨b, hb, hfs⟩ | ⟨b, hes, hrest⟩
  · exact .inr ⟨b, hb, hfs⟩
  · cases b with
    | nil => exact .inr ⟨[], by simpa using hes.symm, by simpa using hrest.symm⟩
    | cons e' b =>
      obtain ⟨rfl, rfl⟩ := List.cons.inj hrest
      exact .inl ⟨b, hes, rfl⟩

namespace Account

variable {outer : Option (Nat × Notice)} {x y z : Instance} {es fs : List Entry}

/-- Where nothing happens to the hub, there is nothing to say. -/
theorem of_eq (hj : y.journal = x.journal) (hd : x.desk = y.desk)
    (ht : y.tellings = x.tellings) : Account outer x y [] where
  journal := hj
  desk := hd
  grows := Nat.le_of_eq ht.symm
  numbers := by simp
  replies := by simp
  tellings := by simp
  whole := by simp

/-- What is said of the numbers of an account that was made in no telling. -/
theorem number_lt (h : Account outer x y es) (houter : ∀ k n, outer = some (k, n) → k < x.tellings)
    {e : Entry} (he : e ∈ es) {j : Nat} (hj : e.number? = some j) : j < y.tellings := by
  rcases h.numbers e he j hj with ⟨k, o, n, ho, rfl⟩ | hlt
  · obtain rfl : k = j := by simpa [Entry.number?] using hj
    exact Nat.lt_of_lt_of_le (houter k n ho) h.grows
  · exact hlt.2

/-- Tellings have numbers of their own. -/
theorem le_number (h : Account outer x y es) {k : Nat} {n : Notice} (he : .telling k n ∈ es) :
    x.tellings ≤ k ∧ k < y.tellings := by
  rcases h.numbers _ he k rfl with ⟨_, _, _, -, habs⟩ | hlt
  · cases habs
  · exact hlt

theorem trans (h : Account outer x y es) (h' : Account outer y z fs)
    (houter : ∀ k n, outer = some (k, n) → k < x.tellings) :
    Account outer x z (es ++ fs) where
  journal := by rw [h'.journal, h.journal, List.reverse_append, List.append_assoc]
  desk := by rw [replay_append, replay_desk h.desk, h'.desk]
  grows := Nat.le_trans h.grows h'.grows
  numbers e he j hj := by
    have hg := h.grows
    have hg' := h'.grows
    rcases List.mem_append.1 he with he | he
    · exact (h.numbers e he j hj).imp_right fun hlt => ⟨hlt.1, by omega⟩
    · exact (h'.numbers e he j hj).imp_right fun hlt => ⟨by omega, hlt.2⟩
  replies before name c r rest hsplit := by
    rcases split_append hsplit with ⟨r', hes, -⟩ | ⟨b, rfl, hfs⟩
    · exact h.replies _ _ _ _ _ hes
    · obtain ⟨hhub, hreply⟩ := h'.replies _ _ _ _ _ hfs
      refine ⟨hhub, fun hc => (hreply hc).trans ?_⟩
      rw [replay_append]
      exact (direct_desk hc (replay_desk h.desk.symm b)).1
  tellings before k n rest hsplit := by
    rcases split_append hsplit with ⟨r', hes, rfl⟩ | ⟨b, rfl, hfs⟩
    · -- a telling of the first part is over when the second begins
      obtain ⟨mid, rest', rfl, hreach⟩ := h.tellings _ _ _ _ hes
      have hk := h.le_number (k := k) (n := n) (by simp [hes])
      refine ⟨mid, rest' ++ fs, by simp, hreach.widen [] fs fun e he hnum => ?_⟩
      rcases h'.numbers e he k hnum with ⟨k', o, m, ho, rfl⟩ | hlt
      · obtain rfl : k' = k := by simpa [Entry.number?] using hnum
        have := houter _ _ ho
        omega
      · omega
    · -- one of the second part has a number that the first does not know
      obtain ⟨mid, rest', rfl, hreach⟩ := h'.tellings _ _ _ _ hfs
      have hk := h'.le_number (k := k) (n := n) (by simp [hfs])
      have haudience : (replay x (es ++ b)).hub = (replay y b).hub := by
        rw [replay_append]
        exact (Prod.mk.inj (replay_desk h.desk b)).1
      have hwide := hreach.widen es [] fun e he hnum => by
        rw [List.append_nil] at he
        have := h.number_lt houter he hnum
        omega
      rw [List.append_nil] at hwide
      exact ⟨mid, rest', rfl, haudience ▸ hwide⟩
  whole k n := by simp only [List.mem_append, h.whole, h'.whole]

/-- An observer hears a notice. -/
theorem heard (x : Instance) (k : Nat) (o : ObserverId) (n : Notice) :
    Account (some (k, n)) x (x.note (.heard k o n)) [.heard k o n] where
  journal := rfl
  desk := rfl
  grows := Nat.le_refl _
  numbers e he j hj := by
    obtain rfl := List.mem_singleton.1 he
    exact .inl ⟨k, o, n, rfl, rfl⟩
  replies before name c r rest h := by simp [List.singleton_eq_append_iff] at h
  tellings before j m rest h := by simp [List.singleton_eq_append_iff] at h
  whole := by simp

/-- A call is answered, by the hub at once or after a telling. -/
theorem answered {c : Call} {r : Reply} (hc : c.isHub) (name : String)
    (hr : c.isDirect → r = (performWith idle c x).1 ∧ y.desk = (performWith idle c x).2.desk)
    (hn : ¬c.isDirect → y.desk = x.desk) (hj : y.journal = x.journal)
    (ht : y.tellings = x.tellings) :
    Account none x (y.note (.answered name c r)) [.answered name c r] where
  journal := by simp [note, hj]
  desk := by
    simp only [replay, List.foldl_cons, List.foldl_nil, Entry.replay]
    split
    · next hdirect => exact (hr hdirect).2.symm
    · next hdirect => exact (hn hdirect).symm
  grows := Nat.le_of_eq ht.symm
  numbers e he j hj := by simp_all [Entry.number?]
  replies before name' c' r' rest h := by
    rcases List.singleton_eq_append_iff.1 h with ⟨rfl, h⟩ | ⟨-, h⟩
    · obtain ⟨rfl, rfl, rfl⟩ := Entry.answered.inj (List.cons.inj h).1
      exact ⟨hc, fun hdirect => (hr hdirect).1⟩
    · cases h
  tellings before j m rest h := by simp [List.singleton_eq_append_iff] at h
  whole := by simp

/-- What is said of what happened outside a telling can be said inside one. -/
theorem weaken (h : Account none x y es) : Account outer x y es :=
  { h with numbers := fun e he j hj => .inr ((h.numbers e he j hj).resolve_left (by simp)) }

/-- What observers do while one telling goes on is all there is of it. -/
theorem reaches {k : Nat} {n : Notice} {os : List ObserverId} (h : Account (some (k, n)) x y es)
    (hheard : hearers k es = os.map (·, n)) (hk : k < x.tellings) :
    Reaches k n os [] es [] where
  heard := hheard
  apart := by simp
  inside e he j hj := by
    rcases h.numbers e he j hj with ⟨k, o, m, ho, rfl⟩ | hlt
    · obtain ⟨rfl, rfl⟩ := Prod.mk.inj (Option.some.inj ho)
      exact .inl ⟨o, rfl⟩
    · exact .inr (Nat.lt_of_lt_of_le hk hlt.1)
  whole := h.whole

/-- The account of a whole telling, from that of what observers did in it. -/
theorem telling {n : Notice} (h : Account (some (x.tellings, n)) (x.announce n) z es)
    (hheard : hearers x.tellings es = (x.hub.audience n).map (·, n)) :
    Account none x (z.conclude x.tellings n)
      (.telling x.tellings n :: (es ++ [.told x.tellings n])) where
  journal := by simp [conclude, note, h.journal, announce]
  desk := by
    obtain ⟨hhub, hquiet⟩ := Prod.mk.inj ((replay_desk (desk_announce x n) es).symm.trans h.desk)
    rw [← List.cons_append, replay_append]
    exact Prod.ext (congrArg (·.publish n) hhub) hquiet
  grows := Nat.le_trans (Nat.le_succ _) h.grows
  numbers e he j hj := by
    have hgrows : x.tellings + 1 ≤ z.tellings := h.grows
    have hend : (z.conclude x.tellings n).tellings = z.tellings := rfl
    refine .inr ?_
    simp only [List.mem_cons, List.mem_append, List.not_mem_nil, or_false] at he
    rcases he with rfl | he | rfl
    · obtain rfl : x.tellings = j := by simpa [Entry.number?] using hj
      omega
    · rcases h.numbers e he j hj with ⟨k, o, m, ho, rfl⟩ | ⟨hle, hlt⟩
      · obtain rfl : k = j := by simpa [Entry.number?] using hj
        obtain ⟨rfl, -⟩ := Prod.mk.inj (Option.some.inj ho)
        omega
      · exact ⟨Nat.le_of_succ_le hle, hlt⟩
    · obtain rfl : x.tellings = j := by simpa [Entry.number?] using hj
      omega
  replies before name c r rest hsplit := by
    cases before with
    | nil => simp at hsplit
    | cons e before =>
      obtain ⟨rfl, hcons⟩ := List.cons.inj hsplit
      rcases split_append hcons with ⟨r', hes, -⟩ | ⟨b, -, hb⟩
      · obtain ⟨hhub, hreply⟩ := h.replies _ _ _ _ _ hes
        have hdesk := replay_desk (desk_announce x n) before
        exact ⟨hhub, fun hc => (hreply hc).trans (direct_desk hc hdesk).1⟩
      · simp [List.singleton_eq_append_iff] at hb
  tellings before k m rest hsplit := by
    cases before with
    | nil =>
      obtain ⟨heq, rfl⟩ := List.cons.inj hsplit
      obtain ⟨rfl, rfl⟩ := Entry.telling.inj heq
      exact ⟨es, [], rfl, h.reaches hheard (Nat.lt_succ_self _)⟩
    | cons e before =>
      obtain ⟨rfl, hcons⟩ := List.cons.inj hsplit
      rcases split_append hcons with ⟨r', hes, rfl⟩ | ⟨b, -, hb⟩
      · obtain ⟨mid, rest', rfl, hreach⟩ := h.tellings _ _ _ _ hes
        have hk : x.tellings + 1 ≤ k := (h.le_number (k := k) (n := m) (by simp [hes])).1
        have haudience : (replay x (.telling x.tellings n :: before)).hub =
            (replay (x.announce n) before).hub :=
          (Prod.mk.inj (replay_desk (desk_announce x n) before)).1.symm
        have hwide := hreach.widen [.telling x.tellings n] [.told x.tellings n] fun e he hnum => by
          have hnumber : e.number? = some x.tellings := by
            obtain rfl | rfl : e = .telling x.tellings n ∨ e = .told x.tellings n := by
              simpa using he
            all_goals rfl
          rw [hnumber] at hnum
          have := Option.some.inj hnum
          omega
        rw [List.singleton_append] at hwide
        exact ⟨mid, rest' ++ [.told x.tellings n], by simp, haudience ▸ hwide⟩
      · simp [List.singleton_eq_append_iff] at hb
  whole k m := by
    simp only [List.mem_cons, List.mem_append, List.not_mem_nil, or_false, Entry.telling.injEq,
      Entry.told.injEq, reduceCtorEq, false_or, h.whole]
    exact or_comm

end Account

/-! ## what calls report -/

/-- Calls to the hub are accounted for, and the observers they bring along only
call the hub too. -/
def Reports (answer : Caller) : Prop :=
  ∀ c x, c.every Call.isHub → x.Obeys Call.isHub → (answer c x).2.Obeys Call.isHub ∧
    ∀ name, ∃ es,
      Account none x ((answer c x).2.note (.answered name c (answer c x).1)) es

section

variable {answer : Caller} {x : Instance}

theorem react_account (ha : Reports answer) (name : String) {cs : List Call}
    (hcs : Call.everyAll Call.isHub cs) (hx : x.Obeys Call.isHub) :
    (react answer name x cs).Obeys Call.isHub ∧
      ∃ es, Account none x (react answer name x cs) es := by
  induction cs generalizing x with
  | nil => exact ⟨hx, [], .of_eq rfl rfl rfl⟩
  | cons c cs ih =>
    simp only [Call.everyAll, Bool.and_eq_true] at hcs
    obtain ⟨hy, haccount⟩ := ha c x hcs.1 hx
    obtain ⟨es, hes⟩ := haccount name
    obtain ⟨hz, fs, hfs⟩ := ih (x := (answer c x).2.note (.answered name c (answer c x).1)) hcs.2 hy
    exact ⟨hz, es ++ fs, hes.trans hfs (by simp)⟩

/-- Nothing that observers do shows in a telling that has begun before. -/
theorem Account.hearers_eq_nil {y : Instance} {es : List Entry} (h : Account none x y es) {k : Nat}
    (hk : k < x.tellings) : hearers k es = [] := by
  refine Instance.hearers_eq_nil fun e he hnum => ?_
  rcases h.numbers e he k hnum with ⟨_, _, _, ho, -⟩ | hlt
  · cases ho
  · omega

/-- Observers have nothing to do, or what they do is accounted for. -/
def Covers (answer : Caller) (x : Instance) : Prop :=
  x.observers = [] ∨ Reports answer ∧ x.Obeys Call.isHub

theorem Account.choose (x : Instance) (name : String) (n : Notice) :
    Account none x (x.choose name n).2 [] := by
  unfold Instance.choose
  split <;> exact .of_eq rfl rfl rfl

theorem deliver_account {k : Nat} (hx : Covers answer x) (hk : k < x.tellings) (n : Notice)
    (o : ObserverId) :
    Covers answer (deliver answer k n x o) ∧
      ∃ es, Account (some (k, n)) x (deliver answer k n x o) es ∧ hearers k es = [(o, n)] := by
  have hheard : hearers k [.heard k o n] = [(o, n)] := by simp [hearers]
  have houter : ∀ j m, some (k, n) = some (j, m) → j < x.tellings := by
    rintro j m ⟨⟩
    exact hk
  cases o with
  | quiet i => exact ⟨hx, _, .heard x k _ n, hheard⟩
  | named name =>
    rcases hx with hnone | ⟨ha, hobeys⟩
    · have hchoose : (x.note (.heard k (.named name) n)).choose name n =
          ([], x.note (.heard k (.named name) n)) := by
        simp [Instance.choose, reactions?, note, hnone]
      simp only [deliver, hchoose, react]
      exact ⟨.inl hnone, _, .heard x k _ n, hheard⟩
    · -- after hearing, the observer acts outside any telling that it did not begin
      let w := x.note (.heard k (.named name) n)
      obtain ⟨hz, es, hes⟩ := react_account ha name (choose_everyAll (x := w) hobeys name n)
        ((choose_extends w name n).obeys hobeys)
      have hcalls : Account none w (react answer name (w.choose name n).2 (w.choose name n).1) es :=
        (Account.choose w name n).trans hes (by simp)
      refine ⟨.inr ⟨ha, hz⟩, _, (Account.heard x k _ n).trans hcalls.weaken houter, ?_⟩
      rw [hearers_append, hheard, hcalls.hearers_eq_nil hk, List.append_nil]

theorem deliverAll_account {k : Nat} (hx : Covers answer x) (hk : k < x.tellings) (n : Notice)
    (os : List ObserverId) :
    Covers answer (deliverAll answer k n x os) ∧
      ∃ es, Account (some (k, n)) x (deliverAll answer k n x os) es ∧
        hearers k es = os.map (·, n) := by
  induction os generalizing x with
  | nil => exact ⟨hx, [], .of_eq rfl rfl rfl, rfl⟩
  | cons o os ih =>
    obtain ⟨hy, es, hes, hheard⟩ := deliver_account hx hk n o
    obtain ⟨hz, fs, hfs, hheard'⟩ := ih hy (Nat.lt_of_lt_of_le hk hes.grows)
    refine ⟨hz, es ++ fs, hes.trans hfs ?_, ?_⟩
    · rintro j m ⟨⟩
      exact hk
    · rw [hearers_append, hheard, hheard', List.map_cons, List.singleton_append]

/-- The telling of a notice, with all that observers do meanwhile. -/
theorem tell_account (hx : Covers answer x) (n : Notice) :
    Covers answer (tell answer n x) ∧
      ∃ z mid, tell answer n x = z.conclude x.tellings n ∧
        Account (some (x.tellings, n)) (x.announce n) z mid ∧
        hearers x.tellings mid = (x.hub.audience n).map (·, n) := by
  obtain ⟨hz, mid, hmid, hheard⟩ :=
    deliverAll_account (x := x.announce n) hx (Nat.lt_succ_self x.tellings) n (x.hub.audience n)
  exact ⟨hz, _, mid, rfl, hmid, hheard⟩

theorem Covers.obeys (hx : Covers answer x) : x.Obeys Call.isHub := by
  rcases hx with hnone | ⟨-, hobeys⟩
  · simp [Obeys, hnone]
  · exact hobeys

theorem performWith_obeys (hx : Covers answer x) {c : Call} (hc : c.every Call.isHub) :
    (performWith answer c x).2.Obeys Call.isHub := by
  rcases Call.isHub_cases (Call.isHub_of_every hc) with ⟨n, rfl⟩ | hdirect
  · simp only [performWith]
    split
    · exact (tell_account hx n).1.obeys
    · exact hx.obeys
  · exact (plain_extends answer hc (Call.isPlain_of_isDirect hdirect)).obeys hx.obeys

/-- What a call does, it reports, if the calls that follow from it do. -/
theorem performWith_account (hx : Covers answer x) {c : Call} (hc : c.isHub) (name : String) :
    ∃ es, Account none x
      ((performWith answer c x).2.note (.answered name c (performWith answer c x).1)) es := by
  rcases Call.isHub_cases hc with ⟨n, rfl⟩ | hdirect
  · simp only [performWith]
    split
    · obtain ⟨-, z, mid, heq, hmid, hheard⟩ := tell_account hx n
      have htold := hmid.telling hheard
      rw [← heq] at htold
      exact ⟨_, htold.trans (.answered hc name (by simp [Call.isDirect]) (fun _ => rfl) rfl rfl)
        (by simp)⟩
    · exact ⟨_, .answered hc name (by simp [Call.isDirect]) (fun _ => rfl) rfl rfl⟩
  · rw [performWith_direct answer hdirect]
    obtain ⟨os, h, q, hframe⟩ := direct_frame hdirect x
    exact ⟨_, .answered hc name (fun _ => ⟨rfl, rfl⟩) (fun hn => absurd hdirect hn)
      (by rw [hframe]) (by rw [hframe])⟩

/-- Observers that change their minds are no part of what is accounted for. -/
theorem Account.withObservers {y : Instance} {es : List Entry} (h : Account none x y es)
    (os ps : List Observer) :
    Account none { x with observers := os } { y with observers := ps } es := by
  have hbefore : Account none { x with observers := os } x [] := .of_eq rfl rfl rfl
  have hafter : Account none y { y with observers := ps } [] := .of_eq rfl rfl rfl
  simpa using (hbefore.trans h (by simp)).trans hafter (by simp)

theorem reports_of_covers {conduct : Conduct} (h : conduct.CallsHub) {answer' : Caller}
    (os : Instance → List Observer)
    (hcovers : ∀ x : Instance, x.Obeys Call.isHub → Covers answer { x with observers := os x })
    (hanswer' : ∀ c x, answer' c x =
      let r := performWith answer c { x with observers := os x }
      (r.1, { r.2 with observers := conduct r.2 })) :
    Reports answer' := by
  intro c x hc hx
  rw [hanswer']
  refine ⟨h _ (performWith_obeys (hcovers x hx) hc), fun name => ?_⟩
  obtain ⟨es, hes⟩ := performWith_account (hcovers x hx) (Call.isHub_of_every hc) name
  exact ⟨es, hes.withObservers x.observers _⟩

/-- Every call is accounted for, whatever observers do. -/
theorem performAs_reports {conduct : Conduct} (h : conduct.CallsHub) (depth : Nat) :
    Reports (performAs conduct depth) := by
  induction depth with
  | zero => exact reports_of_covers h (fun _ => []) (fun _ _ => .inl rfl) fun _ _ => rfl
  | succ depth ih =>
    exact reports_of_covers h (·.observers) (fun _ hx => .inr ⟨ih, hx⟩) fun _ _ => rfl

/-! ## tellings -/

/-- Among observers with reactions of their own, to notify the hub is to tell. -/
theorem call_notify (hx : Ready x) (ho : x.hub.isOpen) (n : Notice) :
    call (.notify n) x = (.done, tell (performAs steady (x.reach + 1)) n x) := by
  have hle : (Call.notify n).weight + x.reach ≤ x.reach + 1 + 1 := by
    simp only [Call.weight]
    omega
  rw [call_eq_performAs hx rfl hle, performAs, performWith, if_pos ho]
  rfl

/-- A telling reaches those that are in its registry when it starts: each hears
it once, in the order of registration, and nobody else does.  Whatever observers
do meanwhile is seen by tellings that start later, and only by those.  Then the
notice goes out once. -/
theorem telling_reaches_audience {conduct : Conduct} (hconduct : conduct.CallsHub) (depth : Nat)
    {x : Instance} (hx : x.Obeys Call.isHub) (hp : x.hub.Proper) (n : Notice) :
    let k := x.tellings
    let y := tell (performAs conduct depth) n x
    ∃ mid,
      y.journal = (.telling k n :: (mid ++ [.told k n])).reverse ++ x.journal ∧
      Reaches k n (x.hub.audience n) [] mid [] ∧ (x.hub.audience n).Nodup ∧
      y.hub = (replay x mid).hub.publish n ∧
      (∀ before j m rest, mid = before ++ .telling j m :: rest →
        ∃ inner after, rest = inner ++ .told j m :: after ∧
          Reaches j m ((replay x before).hub.audience m) before inner after ∧
          ((replay x before).hub.audience m).Nodup) ∧
      (∀ before name c r rest, mid = before ++ .answered name c r :: rest →
        c.isDirect → r = (performWith idle c (replay x before)).1) := by
  intro k y
  obtain ⟨-, z, mid, heq, hmid, hheard⟩ :=
    tell_account (.inr ⟨performAs_reports hconduct depth, hx⟩) n
  have hdesk : ∀ es, (replay (x.announce n) es).desk = (replay x es).desk :=
    replay_desk (desk_announce x n)
  have hhub : ∀ es, (replay (x.announce n) es).hub = (replay x es).hub :=
    fun es => (Prod.mk.inj (hdesk es)).1
  refine ⟨mid, ?_, hmid.reaches hheard (Nat.lt_succ_self _), hp.audience n, ?_,
    fun before j m rest hsplit => ?_, fun before name c r rest hsplit hc => ?_⟩
  · rw [show y = z.conclude k n from heq]
    exact (hmid.telling hheard).journal
  · rw [← hhub mid, (Prod.mk.inj hmid.desk).1]
    exact congrArg (·.hub) heq
  · obtain ⟨inner, after, hrest, hreach⟩ := hmid.tellings _ _ _ _ hsplit
    rw [hhub before] at hreach
    exact ⟨inner, after, hrest, hreach, (replay_proper hp before).audience m⟩
  · exact ((hmid.replies _ _ _ _ _ hsplit).2 hc).trans (direct_desk hc (hdesk before)).1

/-- Two observers, of which the first sends the other away, brings a third one and
tells something itself. -/
def crowd : Instance :=
  { ofSettings ({} : Settings).browser with
    hub := { lifecycle := ⟨[.named "a", .named "b"]⟩ }
    observers := [⟨"a", [⟨.urlChanged "u", .unregister .lifecycle "b" [], 1⟩,
      ⟨.urlChanged "u", .register .lifecycle "c" [], 1⟩,
      ⟨.urlChanged "u", .notify (.hidden true), 1⟩]⟩] }

/-- The one that was sent away speaks up once something else has been told. -/
def meddling : Conduct := fun z =>
  if z.tellings < 2 then z.observers
  else [⟨"b", [⟨.urlChanged "u", .notify .closureRequested, 1⟩]⟩]

theorem telling_reaches_audience_crowd :
    let y := tell (performAs meddling 2) (.urlChanged "u") crowd
    let z := (call (.notify (.urlChanged "u")) crowd).2
    hearers 0 y.journal.reverse =
        [(.named "a", .urlChanged "u"), (.named "b", .urlChanged "u")] ∧
      hearers 1 y.journal.reverse = [(.named "a", .hidden true), (.named "c", .hidden true)] ∧
      hearers 2 y.journal.reverse =
        [(.named "a", .closureRequested), (.named "c", .closureRequested)] ∧
      hearers 0 z.journal.reverse =
        [(.named "a", .urlChanged "u"), (.named "b", .urlChanged "u")] := by
  intro y z
  have hmeddling : meddling.CallsHub := by
    intro z hz o ho
    unfold meddling at ho
    split at ho
    · exact hz o ho
    · rw [List.mem_singleton.1 ho]
      rfl
  have hcrowd : crowd.Obeys Call.isHub := by
    intro o ho
    rw [List.mem_singleton.1 ho]
    rfl
  have hfresh : crowd.journal = [] := rfl
  have hfirst : crowd.tellings = 0 := rfl
  -- whatever the two do next, and however deep, both hear what is told first
  have hboth {conduct : Conduct} (h : conduct.CallsHub) (depth : Nat) :
      hearers 0 (tell (performAs conduct depth) (.urlChanged "u") crowd).journal.reverse =
        [(.named "a", .urlChanged "u"), (.named "b", .urlChanged "u")] := by
    obtain ⟨mid, hjournal, hreach, -⟩ :=
      telling_reaches_audience h depth hcrowd ⟨by decide, by decide⟩ (.urlChanged "u")
    have hheard := hreach.heard
    rw [hfirst] at hheard
    rw [hjournal, hfresh, List.append_nil, List.reverse_reverse, ← List.singleton_append,
      hearers_append, hearers_append, hheard, hfirst]
    rfl
  have hcall : z = tell (performAs steady (crowd.reach + 1)) (.urlChanged "u") crowd :=
    congrArg Prod.snd (call_notify ⟨by decide, hcrowd⟩ rfl (.urlChanged "u"))
  refine ⟨hboth hmeddling 2, by decide, by decide, ?_⟩
  rw [hcall]
  exact hboth steady_callsHub _

end

end BrowserHost.Instance
