import BrowserHost.Proofs.Fanout
import Mathlib.Data.List.Induction

/-!
# BrowserHost.Proofs.Stream

What a subscriber reads.  All that was ever sent is in mind here, though the
channel keeps only the latest of it: a place in the stream cuts it in two, what
is behind it and what is still to come.

* `Enumerates`: reads that go through a list of notices, lost ones counted;
* `readsFrom_outlook`: what is read from a place, of what is still to come;
* `stream_enumerates`: in every run of a hub, every subscriber goes through all
  that was published since it subscribed, in the order in which tellings ended.
-/

namespace BrowserHost

/-! ## going through a list -/

namespace Hub

/-- The reads go through the notices of a list, up to what is left of it.  A
read that tells that `k` notices were lost stands for `k` of them. -/
inductive Enumerates : List Notice → List Read → List Notice → Prop
  | done {ns : List Notice} : Enumerates ns [] ns
  | event {ns left : List Notice} {rs : List Read} (n : Notice) (h : Enumerates ns rs left) :
    Enumerates (n :: ns) (.event n :: rs) left
  | lagged {ns left : List Notice} {rs : List Read} (lost : List Notice)
    (h : Enumerates ns rs left) : Enumerates (lost ++ ns) (.lagged lost.length :: rs) left
  | empty {ns left : List Notice} {rs : List Read} (h : Enumerates ns rs left) :
    Enumerates ns (.empty :: rs) left
  | closed {ns left : List Notice} {rs : List Read} (h : Enumerates ns rs left) :
    Enumerates ns (.closed :: rs) left

/-- The last of what can be read. -/
def Read.isLast : Read → Bool
  | .empty | .closed => true
  | _ => false

namespace Enumerates

variable {ns left rest : List Notice} {rs qs : List Read}

theorem append (h : Enumerates ns rs left) (h' : Enumerates left qs rest) :
    Enumerates ns (rs ++ qs) rest := by
  induction h with
  | done => exact h'
  | event n _ ih => exact .event n (ih h')
  | lagged lost _ ih => exact .lagged lost (ih h')
  | empty _ ih => exact .empty (ih h')
  | closed _ ih => exact .closed (ih h')

/-- More notices at the end are left over. -/
theorem grow (h : Enumerates ns rs left) (ms : List Notice) :
    Enumerates (ns ++ ms) rs (left ++ ms) := by
  induction h with
  | done => exact .done
  | event n _ ih => exact .event n ih
  | lagged lost _ ih =>
    rw [List.append_assoc]
    exact .lagged lost ih
  | empty _ ih => exact .empty ih
  | closed _ ih => exact .closed ih

theorem of_lagged {d : Nat} (h : Enumerates ns (.lagged d :: rs) left) :
    Enumerates (ns.drop d) rs left := by
  cases h with
  | lagged lost h => simpa using h

theorem of_event {n : Notice} (h : Enumerates ns (.event n :: rs) left) :
    Enumerates ns.tail rs left := by
  cases h with
  | event _ h => exact h

theorem of_last {r : Read} (hr : r.isLast) (h : Enumerates ns [r] left) : left = ns := by
  cases h with
  | empty h | closed h => cases h; rfl
  | event | lagged => simp [Read.isLast] at hr

/-- Who has read everything has nothing left. -/
theorem left_nil {r : Read} (hr : r.isLast) (h : Enumerates ns (ns.map .event ++ [r]) left) :
    left = [] := by
  induction ns with
  | nil => exact h.of_last hr
  | cons n ns ih => exact ih h.of_event

end Enumerates

/-- All that can be read when `left` is still to come: if that is more than the
channel keeps, how much of it is lost; the events that are kept; and then that
there is no more, for now or for good. -/
def outlook (capacity : Nat) (isOpen : Bool) (left : List Notice) : List Read :=
  let lost := left.length - capacity
  (if lost = 0 then [] else [.lagged lost]) ++ (left.drop lost).map .event ++
    [if isOpen then .empty else .closed]

section

variable {k m : Nat} {isOpen : Bool} {left left' : List Notice} {r : Read}

theorem outlook_near (isOpen : Bool) (h : left.length ≤ k) :
    outlook k isOpen left = left.map .event ++ [if isOpen then .empty else .closed] := by
  simp [outlook, Nat.sub_eq_zero_of_le h]

theorem outlook_behind (isOpen : Bool) (h : k < left.length) :
    outlook k isOpen left = .lagged (left.length - k) ::
      outlook k isOpen (left.drop (left.length - k)) := by
  have hne : left.length - k ≠ 0 := by omega
  have hnear : (left.drop (left.length - k)).length ≤ k := by
    rw [List.length_drop]
    omega
  rw [outlook_near isOpen hnear]
  simp only [outlook, if_neg hne, List.cons_append, List.nil_append]

/-- Who is not behind by more than what is kept is told of no loss. -/
theorem lagged_notMem_outlook (h : left.length ≤ k) (d : Nat) :
    .lagged d ∉ outlook k isOpen left := by
  rw [outlook_near isOpen h]
  cases isOpen <;> simp

theorem closed_mem_outlook : .closed ∈ outlook k isOpen left ↔ isOpen = false := by
  have hkept : .closed ∉ (left.drop (left.length - k)).map Read.event := by
    simp only [List.mem_map, reduceCtorEq, and_false, exists_false, not_false_eq_true]
  simp only [outlook, List.mem_append, hkept]
  cases isOpen <;> simp

/-- The end comes after all that is kept. -/
theorem outlook_eq_concat (k : Nat) (isOpen : Bool) (left : List Notice) :
    ∃ rs r, outlook k isOpen left = rs ++ [r] ∧ r.isLast ∧ ∀ q ∈ rs, ¬q.isLast := by
  refine ⟨_, _, rfl, by cases isOpen <;> rfl, fun q hq => ?_⟩
  rcases List.mem_append.1 hq with hq | hq
  · split at hq
    · cases hq
    · rw [List.mem_singleton.1 hq]
      simp [Read.isLast]
  · obtain ⟨n, -, rfl⟩ := List.mem_map.1 hq
    simp [Read.isLast]

/-- Who comes to the end has read everything. -/
theorem Enumerates.caught_up (h : Enumerates left ((outlook k isOpen left).take m) left')
    (hr : r.isLast) (hmem : r ∈ (outlook k isOpen left).take m) : left' = [] := by
  obtain ⟨rs, q, heq, hq, hrs⟩ := outlook_eq_concat k isOpen left
  have hall : (outlook k isOpen left).take m = outlook k isOpen left := by
    refine List.take_of_length_le (Nat.le_of_not_lt fun hlt => ?_)
    rw [heq, List.length_append, List.length_singleton] at hlt
    rw [heq, List.take_append_of_le_length (by omega)] at hmem
    exact hrs r (List.mem_of_mem_take hmem) hr
  rw [hall] at h
  have hlast : ∀ {ns}, Enumerates ns (ns.map .event ++ [if isOpen then .empty else .closed]) left' →
      left' = [] := by
    intro ns h
    exact h.left_nil (by cases isOpen <;> rfl)
  rcases Nat.lt_or_ge k left.length with hlt | hle
  · have hnear : (left.drop (left.length - k)).length ≤ k := by
      rw [List.length_drop]
      omega
    rw [outlook_behind isOpen hlt, outlook_near isOpen hnear] at h
    exact hlast h.of_lagged
  · rw [outlook_near isOpen hle] at h
    exact hlast h

end

/-! ## the channel as a stream -/

namespace Channel

/-- The notices sent so far, oldest first; the channel keeps the latest. -/
structure Carries (k : Nat) (all : List Notice) (c : Channel) : Prop where
  capacity : c.capacity = k
  sent : c.sent = all.length
  kept : c.kept = all.reverse.take k

variable {k : Nat} {gone left all : List Notice} {c : Channel}

theorem Carries.publish (h : Carries k all c) (hp : c.places ≠ []) (n : Notice) :
    Carries k (all ++ [n]) (c.publish n) := by
  have hsend : c.publish n =
      { c with sent := c.sent + 1, kept := (n :: c.kept).take c.capacity } := by
    simp [Channel.publish, hp]
  rw [hsend]
  refine ⟨h.capacity, by simp [h.sent], ?_⟩
  simp only [h.kept, h.capacity, List.reverse_append, List.reverse_cons, List.reverse_nil,
    List.nil_append, List.singleton_append]
  cases k with
  | zero => simp
  | succ k => simp [List.take_take]

/-- Without subscribers nothing is sent. -/
theorem Carries.exists_publish (h : Carries k all c) (n : Notice) :
    ∃ all', Carries k all' (c.publish n) := by
  by_cases hp : c.places = []
  · refine ⟨all, ?_⟩
    simpa [Channel.publish, hp] using h
  · exact ⟨_, h.publish hp n⟩

/-! ## one read -/

theorem readAt_end (h : Carries k gone c) :
    c.readAt gone.length = (if c.isOpen then .empty else .closed, gone.length) := by
  simp [readAt, h.sent]

theorem Carries.oldest (h : Carries k all c) : c.oldest = all.length - k := by
  simp only [Channel.oldest, h.sent, h.kept, List.length_take, List.length_reverse]
  omega

theorem readAt_next {n : Notice} (h : Carries k (gone ++ n :: left) c)
    (hle : left.length < k) :
    c.readAt gone.length = (.event n, (gone ++ [n]).length) := by
  have hlength : (gone ++ n :: left).length = gone.length + (left.length + 1) := by simp
  have hkept : c.kept[c.sent - 1 - gone.length]? = some n := by
    have hindex : gone.length + (left.length + 1) - 1 -
        (gone.length + (left.length + 1) - 1 - gone.length) = gone.length := by omega
    rw [h.kept, h.sent, hlength, List.getElem?_take_of_lt (by omega),
      List.getElem?_reverse (by omega), hlength, hindex,
      List.getElem?_append_right (Nat.le_refl _), Nat.sub_self]
    rfl
  have hnew : ¬c.sent ≤ gone.length := by
    rw [h.sent, hlength]
    omega
  have hnear : ¬gone.length < c.oldest := by
    rw [h.oldest, hlength]
    omega
  simp [readAt, hnew, hnear, hkept]

theorem readAt_behind (h : Carries k (gone ++ left) c) (hlt : k < left.length) :
    c.readAt gone.length =
      (.lagged (left.length - k), (gone ++ left.take (left.length - k)).length) := by
  have hlength : (gone ++ left).length = gone.length + left.length := by simp
  have hnew : ¬c.sent ≤ gone.length := by
    rw [h.sent, hlength]
    omega
  have hfar : gone.length < c.oldest := by
    rw [h.oldest, hlength]
    omega
  simp only [readAt, if_neg hnew, if_pos hfar]
  rw [h.oldest, hlength]
  simp
  omega

/-! ## many reads -/

/-- Reads at a place where nothing was lost. -/
theorem readsFrom_near (h : Carries k (gone ++ left) c) (hle : left.length ≤ k) (m : Nat) :
    ∃ gone' left', gone' ++ left' = gone ++ left ∧
      c.readsFrom m gone.length = ((outlook k c.isOpen left).take m, gone'.length) ∧
      Enumerates left ((outlook k c.isOpen left).take m) left' := by
  rw [outlook_near c.isOpen hle]
  -- each read moves one notice from what is to come to what is gone
  induction m generalizing gone left with
  | zero => exact ⟨gone, left, rfl, rfl, .done⟩
  | succ m ih =>
    cases left with
    | nil =>
      rw [List.append_nil] at h
      refine ⟨gone, [], rfl, ?_, ?_⟩
      · simp only [readsFrom, readAt_end h]
        cases c.isOpen <;> simp
      · cases c.isOpen
        · simpa using Enumerates.closed .done
        · simpa using Enumerates.empty .done
    | cons n left =>
      have hread := readAt_next h hle
      rw [List.append_cons] at h
      obtain ⟨gone', left', happ, hreads, henum⟩ := ih h (Nat.le_of_succ_le hle)
      refine ⟨gone', left', by simpa using happ, ?_, .event n henum⟩
      simp only [readsFrom, hread, hreads]
      rfl

/-- What reads at a place give is what the place looks out on. -/
theorem readsFrom_outlook (h : Carries k (gone ++ left) c) (m : Nat) :
    ∃ gone' left', gone' ++ left' = gone ++ left ∧
      c.readsFrom m gone.length = ((outlook k c.isOpen left).take m, gone'.length) ∧
      Enumerates left ((outlook k c.isOpen left).take m) left' := by
  rcases Nat.lt_or_ge k left.length with hlt | hle
  · cases m with
    | zero => exact ⟨gone, left, rfl, rfl, .done⟩
    | succ m =>
      -- the first read passes over all that is lost; then the place is near
      have hread := readAt_behind h hlt
      have hsplit : gone ++ left = (gone ++ left.take (left.length - k)) ++
          left.drop (left.length - k) := by simp
      rw [hsplit] at h ⊢
      obtain ⟨gone', left', happ, hreads, henum⟩ :=
        readsFrom_near h (by rw [List.length_drop]; omega) m
      refine ⟨gone', left', happ, ?_, ?_⟩
      · simp only [readsFrom, hread, hreads, outlook_behind c.isOpen hlt]
        rfl
      · rw [outlook_behind c.isOpen hlt, List.take_succ_cons]
        have := Enumerates.lagged (left.take (left.length - k)) henum
        rwa [List.take_append_drop, List.length_take, Nat.min_eq_left (Nat.sub_le _ _)] at this
  · exact readsFrom_near h hle m

/-! ## places -/

theorem lookup_without (i id : String) (places : List (String × Nat)) :
    (without i places).lookup id = if i = id then none else places.lookup id := by
  induction places with
  | nil => simp [without]
  | cons p places ih =>
    obtain ⟨j, place⟩ := p
    by_cases hj : j = i
    · have hskip : without i ((j, place) :: places) = without i places := by simp [without, hj]
      rw [hskip, ih]
      split
      · rfl
      · next hne =>
        have hother : (id == i) = false := beq_eq_false_iff_ne.2 (Ne.symm hne)
        simp only [List.lookup_cons, hj, hother]
    · have hkeep : without i ((j, place) :: places) = (j, place) :: without i places := by
        simp [without, hj]
      rw [hkeep, List.lookup_cons, List.lookup_cons, ih]
      grind

theorem place?_setPlace (c : Channel) (i id : String) (place : Nat) :
    (c.setPlace i place).place? id = if i = id then some place else c.place? id := by
  unfold place? setPlace
  rw [List.lookup_cons, lookup_without]
  grind

theorem Carries.setPlace (h : Carries k all c) (i : String) (place : Nat) :
    Carries k all (c.setPlace i place) :=
  ⟨h.capacity, h.sent, h.kept⟩

/-- A subscriber at a place, with `left` still to come. -/
def Follows (k : Nat) (id : String) (left : List Notice) (c : Channel) : Prop :=
  ∃ gone, Carries k (gone ++ left) c ∧ c.place? id = some gone.length

namespace Follows

variable {id : String}

/-- A new subscriber has everything still to come. -/
theorem subscribe (h : Carries k all c) (id : String) : Follows k id [] (c.subscribe id) := by
  refine ⟨all, ?_, ?_⟩
  · rw [List.append_nil]
    exact h.setPlace id _
  · rw [Channel.subscribe, place?_setPlace, if_pos rfl, h.sent]

theorem publish (h : Follows k id left c) (n : Notice) :
    Follows k id (left ++ [n]) (c.publish n) := by
  obtain ⟨gone, hc, hp⟩ := h
  have hne : c.places ≠ [] := by
    intro hnil
    simp [place?, hnil] at hp
  refine ⟨gone, ?_, ?_⟩
  · rw [← List.append_assoc]
    exact hc.publish hne n
  · have hplaces : (c.publish n).places = c.places := by
      unfold Channel.publish
      split <;> rfl
    rw [place?, hplaces]
    exact hp

/-- What others do with their places does not matter. -/
theorem of_eq {c' : Channel} (h : Follows k id left c) (hcapacity : c'.capacity = c.capacity)
    (hsent : c'.sent = c.sent) (hkept : c'.kept = c.kept) (hplace : c'.place? id = c.place? id) :
    Follows k id left c' := by
  obtain ⟨gone, hc, hp⟩ := h
  exact ⟨gone, ⟨hcapacity.trans hc.capacity, hsent.trans hc.sent, hkept.trans hc.kept⟩,
    hplace.trans hp⟩

/-- A subscriber reads what its place looks out on, and goes on after that. -/
theorem receive (h : Follows k id left c) (m : Nat) :
    ∃ left', (c.receive id m).1 = some ((outlook k c.isOpen left).take m) ∧
      Enumerates left ((outlook k c.isOpen left).take m) left' ∧
      Follows k id left' (c.receive id m).2 := by
  obtain ⟨gone, hc, hp⟩ := h
  obtain ⟨gone', left', happ, hreads, henum⟩ := readsFrom_outlook hc m
  have hreceive : c.receive id m =
      (some ((outlook k c.isOpen left).take m), c.setPlace id gone'.length) := by
    simp only [Channel.receive, hp, hreads]
  refine ⟨left', by rw [hreceive], henum, gone', ?_, ?_⟩
  · rw [hreceive, happ]
    exact hc.setPlace id _
  · rw [hreceive, place?_setPlace, if_pos rfl]

end Follows

end Channel

end Hub

namespace Instance

open Hub Hub.Channel

/-! ## what a log says of a stream -/

/-- The notices that went out, in the order in which their tellings ended. -/
def published (es : List Entry) : List Notice :=
  es.filterMap fun
    | .told _ n => some n
    | _ => none

/-- What a subscriber has read, in order. -/
def readsOf (id : String) (es : List Entry) : List Read :=
  es.flatMap fun
    | .answered _ (.receive i _) (.reads rs) => if i = id then rs else []
    | _ => []

/-- Whether the hub was taken away. -/
def isDropped (es : List Entry) : Bool :=
  es.any fun
    | .answered _ .dropHub _ => true
    | _ => false

/-- Whether an entry ends the subscription that was there, maybe for another. -/
def Entry.resubscribes (id : String) : Entry → Bool
  | .answered _ (.subscribe i) .done => i == id
  | .answered _ (.unsubscribe i) _ => i == id
  | _ => false

/-- What the hub replies in `z` is what an entry says. -/
def Entry.IsTrue (z : Instance) : Entry → Prop
  | .answered _ c r => c.isHub ∧ (c.isDirect → r = (performWith idle c z).1)
  | _ => True

section

variable {x z : Instance} {k : Nat} {id : String} {es : List Entry} {c : Channel}

theorem carries_onChannel {all : List Notice} (h : Carries k all c) (q : Call) :
    Carries k all (q.onChannel c) := by
  cases q with
  | dropHub | unsubscribe id => exact ⟨h.capacity, h.sent, h.kept⟩
  | subscribe id =>
    simp only [Call.onChannel]
    split
    · exact h.setPlace id _
    · exact h
  | receive id m =>
    simp only [Call.onChannel, Channel.receive]
    split
    · exact h
    · exact h.setPlace id _
  | _ => exact h

/-- Whatever happens, the channel carries all that was ever sent over it. -/
theorem carries_replay {all : List Notice} (h : Carries k all x.hub.channel) (es : List Entry) :
    ∃ all', Carries k all' (replay x es).hub.channel := by
  induction es generalizing x all with
  | nil => exact ⟨all, h⟩
  | cons e es ih =>
    obtain ⟨all', h'⟩ : ∃ all', Carries k all' (Entry.replay x e).hub.channel := by
      cases e with
      | told j n => exact h.exists_publish n
      | answered name q r =>
        simp only [Entry.replay]
        split
        · next hq =>
          rw [direct_channel hq]
          exact ⟨all, carries_onChannel h q⟩
        · exact ⟨all, h⟩
      | _ => exact ⟨all, h⟩
    exact ih h'

/-! ## a subscription -/

/-- The log since a subscription began, and the channel: what was read goes
through what was published, up to what is still to come. -/
def Streams (k : Nat) (id : String) (es : List Entry) (c : Channel) : Prop :=
  c.isOpen = !isDropped es ∧
    ∃ left, Follows k id left c ∧ Enumerates (published es) (readsOf id es) left

namespace Streams

theorem concat {e : Entry} {c' : Channel} {left : List Notice}
    (hc : c'.isOpen = !(isDropped es || isDropped [e])) (hf : Follows k id left c')
    (h : Enumerates (published es ++ published [e]) (readsOf id es ++ readsOf id [e]) left) :
    Streams k id (es ++ [e]) c' := by
  refine ⟨?_, left, hf, ?_⟩
  · rw [hc]
    simp [isDropped]
  · simpa only [published, readsOf, List.filterMap_append, List.flatMap_append] using h

/-- An entry that is about something else. -/
theorem skip (h : Streams k id es c) {e : Entry} {c' : Channel}
    (hf : ∀ left, Follows k id left c → Follows k id left c') (hopen : c'.isOpen = c.isOpen)
    (hp : published [e] = []) (hr : readsOf id [e] = []) (hd : isDropped [e] = false) :
    Streams k id (es ++ [e]) c' := by
  obtain ⟨hc, left, hfollows, henum⟩ := h
  refine concat ?_ (hf left hfollows) ?_
  · rw [hopen, hc, hd, Bool.or_false]
  · rwa [hp, hr, List.append_nil, List.append_nil]

theorem receive (h : Streams k id es z.hub.channel) (name : String) (m : Nat) {r : Reply}
    (hr : r = (z.receive id m).1) :
    Streams k id (es ++ [.answered name (.receive id m) r]) (z.hub.channel.receive id m).2 := by
  obtain ⟨hc, left, hfollows, henum⟩ := h
  obtain ⟨left', hreads, hmore, hfollows'⟩ := hfollows.receive m
  have hopen : (z.hub.channel.receive id m).2.isOpen = z.hub.channel.isOpen := by
    unfold Channel.receive
    split <;> rfl
  obtain rfl : r = .reads ((outlook k z.hub.channel.isOpen left).take m) := by
    simp only [hr, Instance.receive, hreads, Option.map_some, Option.getD_some]
  refine concat ?_ hfollows' ?_
  · rw [hopen, hc]
    simp [isDropped]
  · simpa [published, readsOf] using henum.append hmore

theorem answered {q : Call} {r : Reply} (h : Streams k id es z.hub.channel) (name : String)
    (hq : q.isDirect) (hr : r = (performWith idle q z).1)
    (he : ¬(Entry.answered name q r).resubscribes id) :
    Streams k id (es ++ [.answered name q r]) (q.onChannel z.hub.channel) := by
  cases q with
  | register _ _ _ | registerQuiet | unregister _ _ _ =>
    exact h.skip (fun _ hf => hf) rfl rfl rfl rfl
  | dropHub =>
    obtain ⟨-, left, hfollows, henum⟩ := h
    refine concat ?_ (hfollows.of_eq rfl rfl rfl rfl) ?_
    · simp [isDropped, Call.onChannel]
    · simpa [published, readsOf] using henum
  | subscribe i =>
    by_cases ho : z.hub.channel.isOpen
    · have hdone : r = .done := by simp [hr, performWith, subscribe, Hub.isOpen, ho]
      have hi : i ≠ id := by simpa [hdone, Entry.resubscribes] using he
      simp only [Call.onChannel, if_pos ho]
      refine h.skip (fun left hf => hf.of_eq rfl rfl rfl ?_) rfl rfl rfl rfl
      rw [Channel.subscribe, place?_setPlace, if_neg hi]
    · simp only [Call.onChannel, if_neg ho]
      exact h.skip (fun _ hf => hf) rfl rfl rfl rfl
  | unsubscribe i =>
    have hi : i ≠ id := by simpa [Entry.resubscribes] using he
    refine h.skip (fun left hf => hf.of_eq rfl rfl rfl ?_) rfl rfl rfl rfl
    exact (lookup_without i id _).trans (if_neg hi)
  | receive i m =>
    by_cases hi : i = id
    · subst hi
      exact h.receive name m hr
    · have hother : readsOf id [.answered name (.receive i m) r] = [] := by
        cases r <;> simp [readsOf, hi]
      simp only [Call.onChannel, Channel.receive]
      split
      · exact h.skip (fun _ hf => hf) rfl rfl hother rfl
      · refine h.skip (fun left hf => hf.of_eq rfl rfl rfl ?_) rfl rfl hother rfl
        rw [place?_setPlace, if_neg hi]
  | _ => simp [Call.isDirect] at hq

/-- A subscription goes on, whatever comes next. -/
theorem step (h : Streams k id es z.hub.channel) {e : Entry} (he : ¬e.resubscribes id)
    (ht : e.IsTrue z) : Streams k id (es ++ [e]) (Entry.replay z e).hub.channel := by
  cases e with
  | told j n =>
    obtain ⟨hc, left, hfollows, henum⟩ := h
    have hopen : (z.hub.channel.publish n).isOpen = z.hub.channel.isOpen := by
      unfold Channel.publish
      split <;> rfl
    refine concat ?_ (hfollows.publish n) ?_
    · rw [← Bool.or_false (isDropped es)] at hc
      exact hopen.trans hc
    · simpa [published, readsOf] using henum.grow [n]
  | answered name q r =>
    obtain ⟨hhub, hreply⟩ := ht
    rcases Call.isHub_cases hhub with ⟨n, rfl⟩ | hdirect
    · exact h.skip (fun _ hf => hf) rfl rfl rfl rfl
    · simp only [Entry.replay, if_pos hdirect, direct_channel hdirect]
      exact h.answered name hdirect (hreply hdirect) he
  | _ => exact h.skip (fun _ hf => hf) rfl rfl rfl rfl

/-- What holds when a subscription begins. -/
theorem begin {all : List Notice} (h : Carries k all c) (hc : c.isOpen) (id : String) :
    Streams k id [] (c.subscribe id) :=
  ⟨hc, [], Follows.subscribe h id, .done⟩

/-- A subscription goes on to the end of a log. -/
theorem run (h : Streams k id [] z.hub.channel) {es : List Entry}
    (hes : ∀ e ∈ es, ¬e.resubscribes id)
    (htrue : ∀ before e rest, es = before ++ e :: rest → e.IsTrue (replay z before)) :
    Streams k id es (replay z es).hub.channel := by
  induction es using List.reverseRecOn with
  | nil => exact h
  | append_singleton es e ih =>
    have hprefix : Streams k id es (replay z es).hub.channel := by
      refine ih (fun e' he' => hes e' (List.mem_append_left _ he')) fun before e' rest hsplit => ?_
      exact htrue before e' (rest ++ [e]) (by simp [hsplit])
    rw [replay_append]
    exact hprefix.step (hes e (by simp)) (htrue es e [] rfl)

end Streams

/-! ## runs of a hub -/

/-- What an account says is true when it is said. -/
theorem Account.isTrue {outer : Option (Nat × Notice)} {y : Instance} (h : Account outer x y es)
    {before rest : List Entry} {e : Entry} (hsplit : es = before ++ e :: rest) :
    e.IsTrue (replay x before) := by
  cases e with
  | answered name q r => exact h.replies _ _ _ _ _ hsplit
  | _ => trivial

/-- Where a subscription was granted, the hub was there. -/
theorem isOpen_of_subscribe (h : .done = (performWith idle (.subscribe id) z).1) :
    z.hub.isOpen := by
  by_cases ho : z.hub.isOpen
  · exact ho
  · simp [performWith, subscribe, ho] at h

/-- What an account of a hub says of a subscriber, from the subscription to any
of its reads. -/
theorem Account.streams {outer : Option (Nat × Notice)} {y : Instance} (h : Account outer x y es)
    {all : List Notice} (hx : Carries k all x.hub.channel) {before mid rest : List Entry}
    {a : String} (hsplit : es = before ++ .answered a (.subscribe id) .done :: (mid ++ rest))
    (hmid : ∀ e ∈ mid, ¬e.resubscribes id) :
    Streams k id mid
      (replay x (before ++ .answered a (.subscribe id) .done :: mid)).hub.channel := by
  obtain ⟨all', hall⟩ := carries_replay hx before
  have ho := isOpen_of_subscribe ((h.isTrue hsplit).2 rfl)
  have hbegin : Streams k id []
      (replay x (before ++ [.answered a (.subscribe id) .done])).hub.channel := by
    have hchannel : (performWith idle (.subscribe id) (replay x before)).2.hub.channel =
        (replay x before).hub.channel.subscribe id :=
      (direct_channel rfl _).trans (if_pos ho)
    have hsubscribed := Streams.begin hall ho id
    rw [← hchannel] at hsubscribed
    rw [replay_append]
    exact hsubscribed
  rw [List.append_cons, replay_append]
  refine hbegin.run hmid fun before' e rest' hmid' => ?_
  have hat : es = (before ++ [.answered a (.subscribe id) .done] ++ before') ++
      e :: (rest' ++ rest) := by simp [hsplit, hmid']
  rw [← replay_append]
  exact h.isTrue hat

/-- In every run of a hub, a subscriber goes through all that was published since
it subscribed, in the order in which tellings ended, losses counted.  It is told
of a loss only when it is behind by more than is kept; and when the hub is gone
it still reads all that is kept before it is told so.  What is told in the course
of a telling is published before it. -/
theorem stream_enumerates {conduct : Conduct} (hconduct : conduct.CallsHub) (depth : Nat)
    (s : BrowserSettings) {capacity : Nat} {h : Hub} (hh : Hub.ofCapacity? capacity = some h)
    {os : List Observer} (hos : ∀ o ∈ os, Reaction.everyAll Call.isHub o.reactions)
    (caller : String) {cs : List Call} (hcs : Call.everyAll Call.isHub cs) :
    let x : Instance := { ofSettings s with hub := h, observers := os }
    let log := (react (performAs conduct depth) caller x cs).journal.reverse
    let kept := capacity.nextPowerOfTwo
    (∀ before a id mid b m r rest,
      log = before ++ .answered a (.subscribe id) .done ::
        (mid ++ .answered b (.receive id m) r :: rest) →
      (∀ e ∈ mid, ¬e.resubscribes id) →
        ∃ left left' rs, r = .reads rs ∧ rs = (outlook kept (!isDropped mid) left).take m ∧
          Enumerates (published mid) (readsOf id mid) left ∧
          Enumerates (published mid) (readsOf id mid ++ rs) left' ∧
          (left.length ≤ kept → ∀ d, .lagged d ∉ rs) ∧
          (.closed ∈ rs → isDropped mid) ∧ (∀ q ∈ rs, q.isLast → left' = [])) ∧
      (∀ before j n rest, log = before ++ .telling j n :: rest →
        ∃ mid after, rest = mid ++ .told j n :: after ∧
          .told j n ∉ before ++ mid ++ after ∧
          (∀ i m, .telling i m ∈ mid → .told i m ∈ mid) ∧
          published rest = published mid ++ n :: published after) := by
  intro x log kept
  obtain ⟨-, es, hes⟩ :=
    react_account (x := x) (performAs_reports hconduct depth) caller hcs hos
  have hlog : log = es := by
    have hfresh : x.journal = [] := rfl
    simp only [log, hes.journal, hfresh, List.append_nil, List.reverse_reverse]
  have hcarries : Carries kept [] x.hub.channel := by
    obtain rfl : { channel := .ofCapacity capacity } = h := by
      unfold Hub.ofCapacity? at hh
      split at hh
      · cases hh
      · exact Option.some.inj hh
    exact ⟨rfl, rfl, List.take_nil.symm⟩
  rw [hlog]
  constructor
  · intro before a id mid b m r rest hsplit hmid
    obtain ⟨hopen, left, hfollows, henum⟩ := hes.streams hcarries hsplit hmid
    obtain ⟨left', hreads, hmore, -⟩ := hfollows.receive m
    have hat : es = (before ++ .answered a (.subscribe id) .done :: mid) ++
        .answered b (.receive id m) r :: rest := by simpa using hsplit
    have hreply := (hes.isTrue hat).2 rfl
    simp only [performWith, receive, hreads, Option.map_some, Option.getD_some] at hreply
    rw [hopen] at hreply hmore
    refine ⟨left, left', _, hreply, rfl, henum, henum.append hmore, fun hle d hd => ?_,
      fun hclosed => ?_, fun q hq hlast => hmore.caught_up hlast hq⟩
    · exact lagged_notMem_outlook hle d (List.mem_of_mem_take hd)
    · simpa using closed_mem_outlook.1 (List.mem_of_mem_take hclosed)
  · intro before j n rest hsplit
    obtain ⟨mid, after, rfl, hreach⟩ := hes.tellings _ _ _ _ hsplit
    refine ⟨mid, after, rfl, fun hmem => ?_, fun i m => (hreach.whole i m).1, ?_⟩
    · rw [List.append_assoc, List.mem_append, List.mem_append] at hmem
      rcases hmem with hmem | hmem | hmem
      · exact hreach.apart _ (List.mem_append_left _ hmem) rfl
      · rcases hreach.inside _ hmem j rfl with ⟨o, habs⟩ | hlt
        · cases habs
        · exact Nat.lt_irrefl j hlt
      · exact hreach.apart _ (List.mem_append_right _ hmem) rfl
    · simp [published]

/-- What an observer hears makes it tell something itself.  The subscriber of a
channel that keeps one notice reads in two goes, the hub being gone in between. -/
def torrent : List Call :=
  [.register .lifecycle "a" [⟨.urlChanged "u", .notify (.hidden true), 1⟩], .subscribe "s",
    .notify (.urlChanged "u"), .receive "s" 1, .dropHub, .receive "s" 9]

theorem stream_enumerates_torrent :
    let x : Instance :=
      { ofSettings ({} : Settings).browser with hub := { channel := { capacity := 1 } } }
    let log := (react call "shell" x torrent).journal.reverse
    readsOf "s" log = [.lagged 1, .event (.urlChanged "u"), .closed] ∧
      Enumerates [.hidden true, .urlChanged "u"] (readsOf "s" log) [] := by
  intro x
  have hh : Hub.ofCapacity? 1 = some { channel := { capacity := 1 } } := by decide +kernel
  have hsilent : ∀ o ∈ ([] : List Observer), Reaction.everyAll Call.isHub o.reactions := by simp
  have hcalls : Call.everyAll Call.isHub torrent := rfl
  have hready : Ready x := ⟨List.nodup_nil, hsilent⟩
  have hrun : react call "shell" x torrent = react (performAs steady 15) "shell" x torrent :=
    react_call hready hcalls (by decide) "shell"
  rw [hrun]
  intro log
  let mid : List Entry :=
    [.telling 0 (.urlChanged "u"), .heard 0 (.named "a") (.urlChanged "u"),
      .telling 1 (.hidden true), .heard 1 (.named "a") (.hidden true), .told 1 (.hidden true),
      .answered "a" (.notify (.hidden true)) .done, .told 0 (.urlChanged "u"),
      .answered "shell" (.notify (.urlChanged "u")) .done,
      .answered "shell" (.receive "s" 1) (.reads [.lagged 1]),
      .answered "shell" .dropHub (.flag true)]
  have hlog : log = [.answered "shell" (.register .lifecycle "a"
        [⟨.urlChanged "u", .notify (.hidden true), 1⟩]) .done] ++
      .answered "shell" (.subscribe "s") .done :: (mid ++
        .answered "shell" (.receive "s" 9) (.reads [.event (.urlChanged "u"), .closed]) :: []) :=
    rfl
  obtain ⟨left, left', rs, hr, -, -, henum, -, -, hend⟩ :=
    (stream_enumerates steady_callsHub 15 ({} : Settings).browser hh hsilent "shell" hcalls).1
      _ _ _ _ _ _ _ _ hlog (by decide)
  obtain rfl : [.event (.urlChanged "u"), .closed] = rs := Reply.reads.inj hr
  obtain rfl : left' = [] := hend .closed (by simp) rfl
  rw [hlog]
  exact ⟨rfl, henum⟩

end

end Instance

end BrowserHost
