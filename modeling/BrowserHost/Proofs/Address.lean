import BrowserHost.Proofs.Errand
import BrowserHost.Proofs.Ledger

/-!
# BrowserHost.Proofs.Address

The address of an instance, as its journal tells of it: the URL that callers
asked for last, the one that is tracked, and the loads that each session has to
make.  While loads are queued their reports set the tracked URL back to where
callers have been before; what was asked for last is then the last of the loads
that are still ahead.

* `requested`, `tracked`: the URL asked for last, and the one asked for or
  reported last;
* `Itinerary`: which loads the loops have accepted and made, and which are ahead;
* `Course`: the last load ahead leads to the URL that was asked for last;
* `Hands`: so does every load that has still to be reported as finished.
-/

namespace BrowserHost.Engine

/-- The URL that a task loads. -/
def Task.load? : Task → Option String
  | .work (.load u) => some u
  | _ => none

theorem Task.load?_of_url? {t : Task} (h : t.url? = none) : t.load? = none := by
  match t with
  | .work (.load u) => simp [Task.url?, Work.url?] at h
  | .work (.view v) => rfl
  | .lifecycle s | .visibility s | .report r | .block => rfl

end BrowserHost.Engine

namespace BrowserHost.Instance

open Engine

/-! ## URLs in the journal -/

/-- The URL that a caller asks for. -/
def Entry.navigation? : Entry → Option String
  | .navigated u => some u
  | _ => none

/-- The URL that is tracked from then on: one that a caller asks for, or one
that is reported. -/
def Entry.tracked? : Entry → Option String
  | .navigated u => some u
  | .telling _ n => n.url?
  | _ => none

/-- The URL that an engine gets to load. -/
def Entry.arrival? : Entry → Option String
  | .loaded _ u => some u
  | _ => none

/-- The URL that callers asked for last; at first the configured one. -/
def requested (s : BrowserSettings) (j : List Entry) : String :=
  (j.findSome? Entry.navigation?).getD s.url

/-- The URL that was asked for or reported last; at first the configured one. -/
def tracked (s : BrowserSettings) (j : List Entry) : String :=
  (j.findSome? Entry.tracked?).getD s.url

/-- The URL that was loaded last. -/
def lastLoaded (j : List Entry) : Option String :=
  j.findSome? Entry.arrival?

/-- The URLs that engine `e` loaded, oldest first. -/
def loads (e : Nat) : List Entry → List String
  | [] => []
  | .loaded d u :: j => if d = e then loads e j ++ [u] else loads e j
  | _ :: j => loads e j

/-- The URLs that callers asked for while engine `e` had its session, oldest
first. -/
def visited (e : Nat) : List Entry → List String
  | [] => []
  | .navigated u :: j =>
    if isRunning j ∧ latest j = some e then visited e j ++ [u] else visited e j
  | _ :: j => visited e j

/-- The URLs that tasks load. -/
def loadsOf (ts : List Task) : List String :=
  ts.filterMap Task.load?

/-- The loads that the loop of engine `e` accepted, oldest first. -/
def asked (e : Nat) (j : List Entry) : List String :=
  loadsOf (accepted e j)

/-- The loads that the loop of engine `e` began to run, oldest first. -/
def made (e : Nat) (j : List Entry) : List String :=
  loadsOf (executed e j)

theorem loadsOf_append (ts us : List Task) : loadsOf (ts ++ us) = loadsOf ts ++ loadsOf us :=
  List.filterMap_append

section

variable {e d : Nat} {j : List Entry}

theorem asked_queued (t : Task) :
    asked e (.queued d t :: j) = if d = e then asked e j ++ t.load?.toList else asked e j := by
  simp only [asked, accepted]
  split
  · rw [loadsOf_append]
    cases h : t.load? <;> simp [loadsOf, h]
  · rfl

theorem made_ran (t : Task) :
    made e (.ran d t :: j) = if d = e then made e j ++ t.load?.toList else made e j := by
  simp only [made, executed]
  split
  · rw [loadsOf_append]
    cases h : t.load? <;> simp [loadsOf, h]
  · rfl

/-- The latest session has begun. -/
theorem began_of_latest (h : latest j = some e) : ∃ t, .began e t ∈ j := by
  induction j with
  | nil => simp [latest] at h
  | cons d j ih =>
    cases d with
    | began d t =>
      obtain rfl : d = e := Option.some.inj h
      exact ⟨t, List.mem_cons_self⟩
    | _ =>
      obtain ⟨t, ht⟩ := ih h
      exact ⟨t, List.mem_cons_of_mem _ ht⟩

/-- Nobody can ask for a URL in a session that has not begun. -/
theorem visited_of_unbegun (h : ∀ t, .began e t ∉ j) : visited e j = [] := by
  induction j with
  | nil => rfl
  | cons d j ih =>
    have hj : ∀ t, .began e t ∉ j := fun t ht => h t (List.mem_cons_of_mem d ht)
    cases d with
    | navigated u =>
      have hother : latest j ≠ some e := fun hl =>
        let ⟨t, ht⟩ := began_of_latest hl
        hj t ht
      simp only [visited, hother, and_false, if_false, ih hj]
    | _ => exact ih hj

end

/-! ## entries that do not matter -/

/-- The two journals say the same about URLs, loads and sessions. -/
structure SameRoute (j k : List Entry) : Prop where
  requested : ∀ s, requested s j = requested s k
  tracked : ∀ s, tracked s j = tracked s k
  lastLoaded : lastLoaded j = lastLoaded k
  isRunning : isRunning j = isRunning k
  latest : latest j = latest k
  asked : ∀ e, asked e j = asked e k
  made : ∀ e, made e j = made e k
  loads : ∀ e, loads e j = loads e k
  visited : ∀ e, visited e j = visited e k

theorem SameRoute.refl (j : List Entry) : SameRoute j j := by
  constructor <;> intros <;> rfl

theorem SameRoute.trans {i j k : List Entry} (h : SameRoute i j) (h' : SameRoute j k) :
    SameRoute i k where
  requested s := (h.requested s).trans (h'.requested s)
  tracked s := (h.tracked s).trans (h'.tracked s)
  lastLoaded := h.lastLoaded.trans h'.lastLoaded
  isRunning := h.isRunning.trans h'.isRunning
  latest := h.latest.trans h'.latest
  asked e := (h.asked e).trans (h'.asked e)
  made e := (h.made e).trans (h'.made e)
  loads e := (h.loads e).trans (h'.loads e)
  visited e := (h.visited e).trans (h'.visited e)

section

variable {d : Entry} {es j before : List Entry}

theorem sameRoute_cons (h : d.isNeutral) (j : List Entry) : SameRoute (d :: j) j := by
  cases d with
  | began _ _ | ended _ | navigated _ | loaded _ _ | dropped _ => simp [Entry.isNeutral] at h
  | queued c t =>
    have ht : t.load? = none :=
      Task.load?_of_url? (Option.isNone_iff_eq_none.1 h)
    refine ⟨fun _ => rfl, fun _ => rfl, rfl, rfl, rfl, fun e => ?_, fun _ => rfl, fun _ => rfl,
      fun _ => rfl⟩
    rw [asked_queued, ht, Option.toList_none, List.append_nil, ite_self]
  | ran c t =>
    have ht : t.load? = none :=
      Task.load?_of_url? (Option.isNone_iff_eq_none.1 h)
    refine ⟨fun _ => rfl, fun _ => rfl, rfl, rfl, rfl, fun _ => rfl, fun e => ?_, fun _ => rfl,
      fun _ => rfl⟩
    rw [made_ran, ht, Option.toList_none, List.append_nil, ite_self]
  | telling k n =>
    have hn : n.url? = none := Option.isNone_iff_eq_none.1 h
    refine ⟨fun _ => rfl, fun s => ?_, rfl, rfl, rfl, fun _ => rfl, fun _ => rfl, fun _ => rfl,
      fun _ => rfl⟩
    simp [tracked, Entry.tracked?, hn]
  | _ => constructor <;> intros <;> rfl

theorem sameRoute_append (h : ∀ d ∈ es, d.isNeutral) (j : List Entry) :
    SameRoute (es ++ j) j := by
  induction es with
  | nil => exact .refl j
  | cons d es ih =>
    simp only [List.forall_mem_cons] at h
    exact (sameRoute_cons h.1 _).trans (ih h.2)

theorem suffix_of_ne {c : Entry} (hne : d ≠ c) (h : d :: before <:+ c :: j) :
    d :: before <:+ j := by
  rcases List.suffix_cons_iff.1 h with heq | h
  · exact absurd (List.cons.inj heq).1 hne
  · exact h

theorem ne_of_neutral {c : Entry} (hc : c.isNeutral) (hd : d.isNeutral = false) : d ≠ c := by
  rintro rfl
  simp [hc] at hd

end

/-! ## the loads of all sessions -/

/-- What the loops have accepted to load and have loaded: those of earlier
sessions are done, `ahead` is what the latest one has still to load, and each
session loads the URL that was tracked when it began and then those that callers
asked for in it. -/
structure Itinerary (s : BrowserSettings) (ahead : List String) (j : List Entry) : Prop where
  latest : ∀ e, latest j = some e → asked e j = loads e j ++ ahead
  others : ∀ e, Instance.latest j ≠ some e → asked e j = loads e j
  idle : Instance.latest j = none → ahead = []
  made : ∀ e, made e j = loads e j
  dropped : ∀ e, .dropped e ∈ j → asked e j = loads e j
  unbegun : ∀ e, (∀ t, .began e t ∉ j) → asked e j = []
  begun : ∀ e t before, .began e t :: before <:+ j →
    tracked s before = requested s before ∧ asked e j = requested s before :: visited e j

namespace Itinerary

variable {s : BrowserSettings} {ahead rest : List String} {url v u : String} {e : Nat}
  {es j : List Entry}

theorem fresh (s : BrowserSettings) : Itinerary s [] [] := by
  constructor <;> simp [Instance.latest, asked, Instance.made, loads, loadsOf, accepted, executed]

/-- An entry that says nothing about loads and sessions. -/
theorem note {d : Entry} (h : Itinerary s ahead j)
    (hl : Instance.latest (d :: j) = Instance.latest j)
    (ha : ∀ e, asked e (d :: j) = asked e j)
    (hm : ∀ e, Instance.made e (d :: j) = Instance.made e j)
    (ho : ∀ e, loads e (d :: j) = loads e j) (hv : ∀ e, visited e (d :: j) = visited e j)
    (hb : ∀ e t, .began e t ≠ d) (hd : ∀ e, .dropped e ≠ d) : Itinerary s ahead (d :: j) where
  latest e he := by rw [ha, ho, h.latest e (hl ▸ he)]
  others e he := by rw [ha, ho, h.others e (hl ▸ he)]
  idle he := h.idle (hl ▸ he)
  made e := by rw [hm, ho, h.made]
  dropped e he := by rw [ha, ho, h.dropped e (List.mem_of_ne_of_mem (hd e) he)]
  unbegun e he := by rw [ha, h.unbegun e fun t ht => he t (List.mem_cons_of_mem d ht)]
  begun e t before hsuffix := by
    obtain ⟨htracked, hasked⟩ := h.begun e t before (suffix_of_ne (hb e t) hsuffix)
    exact ⟨htracked, by rw [ha, hv, hasked]⟩

theorem neutral (h : Itinerary s ahead j) (hes : ∀ d ∈ es, d.isNeutral) :
    Itinerary s ahead (es ++ j) := by
  induction es with
  | nil => exact h
  | cons d es ih =>
    simp only [List.forall_mem_cons] at hes
    have hsame := sameRoute_cons hes.1 (es ++ j)
    exact (ih hes.2).note hsame.latest hsame.asked hsame.made hsame.loads hsame.visited
      (fun _ _ => ne_of_neutral hes.1 rfl) fun _ => ne_of_neutral hes.1 rfl

/-- Nothing is ahead of a session that has made all its loads. -/
theorem ahead_eq_nil (h : Itinerary s ahead j)
    (hall : ∀ e, Instance.latest j = some e → asked e j = loads e j) : ahead = [] := by
  cases hl : Instance.latest j with
  | none => exact h.idle hl
  | some e =>
    have hahead := h.latest e hl
    rw [hall e hl] at hahead
    exact List.append_cancel_left (hahead.symm.trans (List.append_nil _).symm)

/-- The loads that a loop has made are the first of those it accepted. -/
theorem prefix_asked (h : Itinerary s ahead j) (e : Nat) : loads e j <+: asked e j := by
  by_cases hl : Instance.latest j = some e
  · rw [h.latest e hl]
    exact List.prefix_append _ _
  · exact ⟨[], by rw [List.append_nil, h.others e hl]⟩

/-- A caller asks for a URL while a session is running. -/
theorem navigate (h : Itinerary s ahead j) (hl : Instance.latest j = some e)
    (hr : isRunning j) (hd : .dropped e ∉ j) (v : String) :
    Itinerary s (ahead ++ [v]) (.queued e (.work (.load v)) :: .navigated v :: j) := by
  have hasked (d : Nat) : asked d (.queued e (.work (.load v)) :: .navigated v :: j) =
      if e = d then asked d j ++ [v] else asked d j := asked_queued _
  have hvisited (d : Nat) : visited d (.queued e (.work (.load v)) :: .navigated v :: j) =
      if e = d then visited d j ++ [v] else visited d j := by
    simp [visited, hl, hr]
  refine ⟨fun d hd => ?_, fun d hd => ?_, fun hnone => ?_, h.made, fun d hdrop => ?_,
    fun d hd => ?_, fun d t before hb => ?_⟩
  · obtain rfl : e = d := Option.some.inj (hl.symm.trans hd)
    rw [hasked, if_pos rfl, h.latest e hl, List.append_assoc]
    rfl
  · have hne : e ≠ d := fun hed => hd (hed ▸ hl)
    rw [hasked, if_neg hne]
    exact h.others d hd
  · exact absurd (hl.symm.trans hnone) (by simp)
  · have hmem : .dropped d ∈ j := by simpa using hdrop
    have hne : e ≠ d := fun hed => hd (hed ▸ hmem)
    rw [hasked, if_neg hne]
    exact h.dropped d hmem
  · have hnone : ∀ t, .began d t ∉ j := fun t => by simpa using hd t
    have hne : e ≠ d := by
      rintro rfl
      obtain ⟨t, ht⟩ := began_of_latest hl
      exact hnone t ht
    rw [hasked, if_neg hne, h.unbegun d hnone]
  · obtain ⟨htracked, hall⟩ :=
      h.begun d t before (suffix_of_ne (by simp) (suffix_of_ne (by simp) hb))
    refine ⟨htracked, ?_⟩
    rw [hasked, hvisited, hall]
    split <;> rfl

/-- Only the latest session can have loads to make. -/
theorem latest_of_asked (h : Itinerary s ahead j) (ha : asked e j = loads e j ++ u :: rest) :
    Instance.latest j = some e ∧ ahead = u :: rest := by
  have hl : Instance.latest j = some e := by
    by_contra hne
    rw [h.others e hne] at ha
    simp at ha
  refine ⟨hl, ?_⟩
  rw [h.latest e hl] at ha
  exact List.append_cancel_left ha

/-- An engine gets the first of the loads ahead. -/
theorem load (h : Itinerary s (u :: rest) j) (hl : Instance.latest j = some e) :
    Itinerary s rest (.loaded e u :: .ran e (.work (.load u)) :: j) := by
  have hloads (d : Nat) : loads d (.loaded e u :: .ran e (.work (.load u)) :: j) =
      if e = d then loads d j ++ [u] else loads d j := rfl
  have hmade (d : Nat) : Instance.made d (.loaded e u :: .ran e (.work (.load u)) :: j) =
      if e = d then Instance.made d j ++ [u] else Instance.made d j := made_ran _
  refine ⟨fun d hd => ?_, fun d hd => ?_, fun hnone => ?_, fun d => ?_, fun d hdrop => ?_,
    fun d hd => ?_, fun d t before hb => ?_⟩
  · obtain rfl : e = d := Option.some.inj (hl.symm.trans hd)
    rw [hloads, if_pos rfl, List.append_assoc]
    exact h.latest e hl
  · have hne : e ≠ d := fun hed => hd (hed ▸ hl)
    rw [hloads, if_neg hne]
    exact h.others d hd
  · exact absurd (hl.symm.trans hnone) (by simp)
  · rw [hmade, hloads, h.made]
  · have hmem : .dropped d ∈ j := by simpa using hdrop
    have hne : e ≠ d := by
      rintro rfl
      have hall := h.latest e hl
      rw [h.dropped e hmem] at hall
      simp at hall
    rw [hloads, if_neg hne]
    exact h.dropped d hmem
  · exact h.unbegun d fun t => by simpa using hd t
  · exact h.begun d t before (suffix_of_ne (by simp) (suffix_of_ne (by simp) hb))

/-- An engine that has made all its loads is dropped. -/
theorem drop (h : Itinerary s ahead j) (ha : asked e j = loads e j) :
    Itinerary s ahead (.dropped e :: j) where
  latest := h.latest
  others := h.others
  idle := h.idle
  made := h.made
  dropped d hd := by
    rcases List.mem_cons.1 hd with heq | hd
    · obtain rfl : d = e := Entry.dropped.inj heq
      exact ha
    · exact h.dropped d hd
  unbegun d hd := h.unbegun d fun t => by simpa using hd t
  begun d t before hb := h.begun d t before (suffix_of_ne (by simp) hb)

/-- A session begins when nothing is left to load. -/
theorem begin (h : Itinerary s ahead j) (hclear : ∀ d, asked d j = loads d j)
    (htracked : tracked s j = requested s j) (hb : ∀ t, .began e t ∉ j) (hd : .dropped e ∉ j)
    (t : State) :
    Itinerary s [requested s j] (.queued e (.lifecycle t) ::
      .queued e (.work (.load (requested s j))) :: .began e t :: j) := by
  have hasked (d : Nat) : asked d (.queued e (.lifecycle t) ::
      .queued e (.work (.load (requested s j))) :: .began e t :: j) =
        if e = d then asked d j ++ [requested s j] else asked d j := by
    rw [asked_queued, asked_queued]
    simp only [Task.load?, Option.toList_none, List.append_nil, ite_self]
    rfl
  refine ⟨fun d hl => ?_, fun d hl => ?_, nofun, h.made, fun d hdrop => ?_, fun d hnone => ?_,
    fun d t' before hsuffix => ?_⟩
  · obtain rfl : e = d := Option.some.inj hl
    rw [hasked, if_pos rfl, hclear]
    rfl
  · have hne : e ≠ d := fun hed => hl (congrArg some hed)
    rw [hasked, if_neg hne]
    exact hclear d
  · have hmem : .dropped d ∈ j := by simpa using hdrop
    have hne : e ≠ d := fun hed => hd (hed ▸ hmem)
    rw [hasked, if_neg hne]
    exact h.dropped d hmem
  · have hne : e ≠ d := by
      rintro rfl
      exact hnone t (by simp)
    rw [hasked, if_neg hne]
    exact h.unbegun d fun t' ht' => hnone t' (by simp [ht'])
  · rcases List.suffix_cons_iff.1 (suffix_of_ne (by simp) (suffix_of_ne (by simp) hsuffix)) with
      heq | hsuffix
    · obtain ⟨hentry, rfl⟩ := List.cons.inj heq
      obtain ⟨rfl, -⟩ := Entry.began.inj hentry
      have hvisited : visited d before = [] := visited_of_unbegun hb
      refine ⟨htracked, ?_⟩
      rw [hasked, if_pos rfl, h.unbegun d hb]
      simp only [visited, hvisited, List.nil_append]
    · obtain ⟨hold, hall⟩ := h.begun d t' before hsuffix
      have hne : e ≠ d := by
        rintro rfl
        exact hb t' (hsuffix.subset List.mem_cons_self)
      exact ⟨hold, by rw [hasked, if_neg hne, hall]; rfl⟩

end Itinerary

/-! ## the way to the URL that was asked for -/

/-- Every session that was given up has had its engine dropped. -/
def NoTeardown (j : List Entry) : Prop :=
  ∀ e, .ended e ∈ j → .dropped e ∈ j

/-- With `ahead` still to be loaded by the latest session and `url` tracked, the
last load ahead leads to the URL that was asked for last; when none is ahead it
is tracked already, and in a running session it was the last to be loaded. -/
structure Course (s : BrowserSettings) (ahead : List String) (url : String)
    (j : List Entry) : Prop extends Itinerary s ahead j where
  current : tracked s j = url
  promised : ahead.getLast?.getD url = requested s j
  arrived : isRunning j → ahead = [] → lastLoaded j = some (requested s j)
  retired : isRunning j = false → ∀ e, Instance.latest j = some e → .ended e ∈ j
  clean : ∀ e r, .queued e (.report r) ∈ j → r.url? = none

/-- What is ahead leads there from one more load, too. -/
theorem getLast?_load (u url : String) (rest : List String) :
    (u :: rest).getLast?.getD url = rest.getLast?.getD u := by
  rw [List.getLast?_cons, Option.getD_some]

namespace Course

variable {s : BrowserSettings} {ahead rest : List String} {url v u : String} {e : Nat}
  {es j : List Entry}

theorem fresh (s : BrowserSettings) : Course s [] s.url [] where
  toItinerary := .fresh s
  current := rfl
  promised := rfl
  arrived := nofun
  retired := nofun
  clean := nofun

theorem neutral (h : Course s ahead url j) (hes : ∀ d ∈ es, d.isNeutral) :
    Course s ahead url (es ++ j) := by
  have hsame := sameRoute_append hes j
  refine ⟨h.toItinerary.neutral hes, ?_, ?_, fun hr => ?_, fun hr e hl => ?_, fun e r hmem => ?_⟩
  · rw [hsame.tracked, h.current]
  · rw [hsame.requested, h.promised]
  · rw [hsame.lastLoaded, hsame.requested]
    exact h.arrived (hsame.isRunning ▸ hr)
  · exact List.mem_append_right es (h.retired (hsame.isRunning ▸ hr) e (hsame.latest ▸ hl))
  · rcases List.mem_append.1 hmem with hmem | hmem
    · exact Option.isNone_iff_eq_none.1 (hes _ hmem)
    · exact h.clean e r hmem

/-- A caller asks for a URL in a running session. -/
theorem navigate (h : Course s ahead url j) (hl : Instance.latest j = some e) (hr : isRunning j)
    (hd : .dropped e ∉ j) (v : String) :
    Course s (ahead ++ [v]) v (.queued e (.work (.load v)) :: .navigated v :: j) where
  toItinerary := h.toItinerary.navigate hl hr hd v
  current := rfl
  promised := by
    rw [List.getLast?_concat]
    rfl
  arrived _ hnone := by simp at hnone
  retired hr' := by
    have hsame : isRunning (.queued e (.work (.load v)) :: .navigated v :: j) = isRunning j := rfl
    simp [hsame, hr] at hr'
  clean d r hmem := h.clean d r (by simpa using hmem)

/-- Without a session nothing is ahead, once the last engine was dropped. -/
theorem ahead_of_rest (h : Course s ahead url j) (hr : isRunning j = false)
    (hrest : NoTeardown j) : ahead = [] :=
  h.ahead_eq_nil fun e hl => h.dropped e (hrest e (h.retired hr e hl))

/-- A caller asks for a URL when there is no session, nor one being torn down. -/
theorem remember (h : Course s ahead url j) (hr : isRunning j = false) (hrest : NoTeardown j)
    (v : String) : Course s ahead v (.navigated v :: j) where
  toItinerary := by
    refine h.toItinerary.note rfl (fun _ => rfl) (fun _ => rfl) (fun _ => rfl) (fun e => ?_)
      (by simp) (by simp)
    simp [visited, hr]
  current := rfl
  promised := by
    rw [h.ahead_of_rest hr hrest]
    rfl
  arrived hr' := by
    have hsame : isRunning (.navigated v :: j) = isRunning j := rfl
    simp [hsame, hr] at hr'
  retired _ e hl := List.mem_cons_of_mem _ (h.retired hr e hl)
  clean d r hmem := h.clean d r (by simpa using hmem)

/-- An engine gets the first of the loads ahead, and reports it. -/
theorem load (h : Course s (u :: rest) url j) (hl : Instance.latest j = some e) (k : Nat) :
    Course s rest u
      (.telling k (.urlChanged u) :: .loaded e u :: .ran e (.work (.load u)) :: j) where
  toItinerary := by
    refine (h.toItinerary.load hl).note rfl (fun _ => rfl) (fun _ => rfl) (fun _ => rfl)
      (fun _ => rfl) (by simp) (by simp)
  current := rfl
  promised := (getLast?_load u url rest).symm.trans h.promised
  arrived _ hnone := by
    have hlast := h.promised
    rw [getLast?_load, hnone] at hlast
    exact congrArg some hlast
  retired hr e hl := by
    have hended := h.retired hr e hl
    simp [hended]
  clean d r hmem := h.clean d r (by simpa using hmem)

/-- A load is reported as finished that leads where what is ahead does. -/
theorem finish (h : Course s ahead url j) (hu : ahead.getLast?.getD u = requested s j) (k : Nat) :
    Course s ahead u (.telling k (.loadFinished u) :: j) where
  toItinerary := by
    refine h.toItinerary.note rfl (fun _ => rfl) (fun _ => rfl) (fun _ => rfl) (fun _ => rfl)
      (by simp) (by simp)
  current := rfl
  promised := hu
  arrived := h.arrived
  retired hr e hl := List.mem_cons_of_mem _ (h.retired hr e hl)
  clean d r hmem := h.clean d r (by simpa using hmem)

/-- The session is given up. -/
theorem giveUp (h : Course s ahead url j) (hl : Instance.latest j = some e) :
    Course s ahead url (.ended e :: j) where
  toItinerary := by
    refine h.toItinerary.note rfl (fun _ => rfl) (fun _ => rfl) (fun _ => rfl) (fun _ => rfl)
      (by simp) (by simp)
  current := h.current
  promised := h.promised
  arrived := nofun
  retired _ d hd := by
    obtain rfl : e = d := Option.some.inj (hl.symm.trans hd)
    exact List.mem_cons_self
  clean d r hmem := h.clean d r (by simpa using hmem)

theorem drop (h : Course s ahead url j) (ha : asked e j = loads e j) :
    Course s ahead url (.dropped e :: j) where
  toItinerary := h.toItinerary.drop ha
  current := h.current
  promised := h.promised
  arrived := h.arrived
  retired hr d hd := List.mem_cons_of_mem _ (h.retired hr d hd)
  clean d r hmem := h.clean d r (by simpa using hmem)

theorem ahead_of_clear (h : Course s ahead url j) (hclear : ∀ d, asked d j = loads d j) :
    ahead = [] :=
  h.ahead_eq_nil fun e _ => hclear e

theorem url_of_clear (h : Course s ahead url j) (hclear : ∀ d, asked d j = loads d j) :
    url = requested s j := by
  have hlast := h.promised
  rwa [h.ahead_of_clear hclear] at hlast

/-- A session begins when nothing is left to load. -/
theorem begin (h : Course s ahead url j) (hclear : ∀ d, asked d j = loads d j)
    (hb : ∀ t, .began e t ∉ j) (hd : .dropped e ∉ j) (t : State) :
    Course s [url] url
      (.queued e (.lifecycle t) :: .queued e (.work (.load url)) :: .began e t :: j) := by
  obtain rfl := h.url_of_clear hclear
  exact
    { toItinerary := h.toItinerary.begin hclear h.current hb hd t
      current := h.current
      promised := rfl
      arrived := fun _ => nofun
      retired := nofun
      clean := fun d r hmem => h.clean d r (by simpa using hmem) }

end Course

/-! ## loads in hand -/

/-- Every load that has still to be reported as finished leads where what is
ahead does; it is one of the running session, or of one that was given up, and
then nothing was asked for since the next one began. -/
structure Hands (s : BrowserSettings) (ahead : List String) (stack : List Frame)
    (j : List Entry) : Prop where
  due : ∀ i e u, .due i e u ∈ stack →
    ahead.getLast?.getD u = requested s j ∧ (latest j ≠ some e → u = requested s j)
  seat : ∀ i e u, .due i e u ∈ stack → (latest j = some e ∧ isRunning j) ∨ .ended e ∈ j
  starts : stack.Pairwise fun f g => f = .start → ∀ i e u, g = .due i e u → .ended e ∈ j

namespace Hands

variable {s : BrowserSettings} {ahead rest : List String} {v u : String} {i e : Nat}
  {stack : List Frame} {f : Frame} {es j k : List Entry}

theorem fresh (s : BrowserSettings) : Hands s [] [] [] :=
  ⟨nofun, nofun, .nil⟩

/-- More is in the journal, but nothing about what was asked for and the
sessions. -/
theorem extend (h : Hands s ahead stack j) (hreq : requested s k = requested s j)
    (hl : latest k = latest j) (hr : isRunning k = isRunning j) (hjk : j ⊆ k) :
    Hands s ahead stack k where
  due i e u hmem := by
    rw [hreq, hl]
    exact h.due i e u hmem
  seat i e u hmem := by
    rw [hl, hr]
    exact (h.seat i e u hmem).imp_right (hjk ·)
  starts := h.starts.imp fun hfg hf i e u hg => hjk (hfg hf i e u hg)

theorem neutral (h : Hands s ahead stack j) (hes : ∀ d ∈ es, d.isNeutral) :
    Hands s ahead stack (es ++ j) := by
  have hsame := sameRoute_append hes j
  exact h.extend (hsame.requested s) hsame.latest hsame.isRunning (List.subset_append_right es j)

theorem pop (h : Hands s ahead (f :: stack) j) : Hands s ahead stack j where
  due i e u hmem := h.due i e u (List.mem_cons_of_mem f hmem)
  seat i e u hmem := h.seat i e u (List.mem_cons_of_mem f hmem)
  starts := (List.pairwise_cons.1 h.starts).2

theorem pushTask (h : Hands s ahead stack j) (i : Nat) : Hands s ahead (.task i :: stack) j where
  due i e u hmem := h.due i e u (by simpa using hmem)
  seat i e u hmem := h.seat i e u (by simpa using hmem)
  starts := List.pairwise_cons.2 ⟨by simp, h.starts⟩

/-- Nobody has a session, so all loads in hand are of sessions given up. -/
theorem pushStart (h : Hands s ahead stack j) (hr : isRunning j = false) :
    Hands s ahead (.start :: stack) j where
  due i e u hmem := h.due i e u (by simpa using hmem)
  seat i e u hmem := h.seat i e u (by simpa using hmem)
  starts := by
    refine List.pairwise_cons.2 ⟨fun g hg _ i e u heq => ?_, h.starts⟩
    exact (h.seat i e u (heq ▸ hg)).resolve_left (by simp [hr])

/-- While no session is being torn down, only the running session has loads in
hand. -/
theorem running_of_rest (h : Hands s ahead stack j) (hrest : NoTeardown j)
    (hafloat : ∀ i e u, .due i e u ∈ stack → .dropped e ∉ j) (hmem : .due i e u ∈ stack) :
    latest j = some e ∧ isRunning j :=
  (h.seat i e u hmem).resolve_right fun hended => hafloat i e u hmem (hrest e hended)

theorem navigate (h : Hands s ahead stack j) (hrest : NoTeardown j)
    (hafloat : ∀ i e u, .due i e u ∈ stack → .dropped e ∉ j) (d : Nat) (v : String) :
    Hands s (ahead ++ [v]) stack (.queued d (.work (.load v)) :: .navigated v :: j) where
  due i e u hmem := by
    obtain ⟨hl, -⟩ := h.running_of_rest hrest hafloat hmem
    refine ⟨?_, fun hne => absurd hl hne⟩
    rw [List.getLast?_concat]
    rfl
  seat i e u hmem := .inl (h.running_of_rest hrest hafloat hmem)
  starts := h.starts.imp fun hfg hf i e u hg => by simp [hfg hf i e u hg]

theorem remember (h : Hands s ahead stack j) (hr : isRunning j = false) (hrest : NoTeardown j)
    (hafloat : ∀ i e u, .due i e u ∈ stack → .dropped e ∉ j) (v : String) :
    Hands s ahead stack (.navigated v :: j) := by
  have hnone (i e : Nat) (u : String) (hmem : .due i e u ∈ stack) : False := by
    simpa [hr] using (h.running_of_rest hrest hafloat hmem).2
  refine ⟨fun i e u hmem => (hnone i e u hmem).elim, fun i e u hmem => (hnone i e u hmem).elim, ?_⟩
  exact h.starts.imp fun hfg hf i e u hg => List.mem_cons_of_mem _ (hfg hf i e u hg)

/-- The first of the loads ahead is made and is in hand. -/
theorem load (h : Hands s (u :: rest) stack j) (hl : latest j = some e)
    (hseat : isRunning j ∨ .ended e ∈ j) (hu : rest.getLast?.getD u = requested s j)
    (hother : ∀ i u, .due i e u ∉ stack) (i k : Nat) :
    Hands s rest (.due i e u :: stack)
      (.telling k (.urlChanged u) :: .loaded e u :: .ran e (.work (.load u)) :: j) := by
  refine ⟨fun i' e' u' hmem => ?_, fun i' e' u' hmem => ?_, ?_⟩
  · rcases List.mem_cons.1 hmem with heq | hmem
    · obtain ⟨rfl, rfl, rfl⟩ := Frame.due.inj heq
      exact ⟨hu, fun hne => absurd hl hne⟩
    · -- another load in hand is one of a session that has been followed by another
      have hne : latest j ≠ some e' := by
        rw [hl]
        rintro heq
        exact hother i' u' (Option.some.inj heq ▸ hmem)
      obtain ⟨hlast, hreq⟩ := h.due i' e' u' hmem
      refine ⟨?_, fun _ => hreq hne⟩
      cases hrest : rest.getLast? with
      | none => exact hreq hne
      | some w =>
        rw [hrest] at hu
        exact hu
  · rcases List.mem_cons.1 hmem with heq | hmem
    · obtain ⟨rfl, rfl, rfl⟩ := Frame.due.inj heq
      exact hseat.imp (fun hr => ⟨hl, hr⟩) fun hended => by simp [hended]
    · exact (h.seat i' e' u' hmem).imp_right fun hended => by simp [hended]
  · refine List.pairwise_cons.2 ⟨by simp, ?_⟩
    exact h.starts.imp fun hfg hf i e u hg => by simp [hfg hf i e u hg]

/-- A load in hand is reported as finished. -/
theorem finish (h : Hands s ahead (.due i e u :: stack) j) (k : Nat) :
    Hands s ahead (.task i :: stack) (.telling k (.loadFinished u) :: j) :=
  (h.pop.pushTask i).extend rfl rfl rfl (List.subset_cons_self _ j)

theorem giveUp (h : Hands s ahead stack j) (hl : latest j = some e) :
    Hands s ahead stack (.ended e :: j) where
  due := h.due
  seat i d u hmem := by
    rcases h.seat i d u hmem with ⟨hd, -⟩ | hended
    · obtain rfl : e = d := Option.some.inj (hl.symm.trans hd)
      exact .inr List.mem_cons_self
    · exact .inr (List.mem_cons_of_mem _ hended)
  starts := h.starts.imp fun hfg hf i e u hg => List.mem_cons_of_mem _ (hfg hf i e u hg)

/-- A session begins when nothing is ahead; all loads in hand are of sessions
given up. -/
theorem begin (h : Hands s [] (.start :: stack) j) {url : String} (hurl : url = requested s j)
    (t : State) :
    Hands s [url] stack
      (.queued e (.lifecycle t) :: .queued e (.work (.load url)) :: .began e t :: j) where
  due i d u hmem := ⟨hurl, fun _ => (h.due i d u (List.mem_cons_of_mem _ hmem)).1⟩
  seat i d u hmem := by
    have hended := (List.pairwise_cons.1 h.starts).1 _ hmem rfl i d u rfl
    simp [hended]
  starts := h.pop.starts.imp fun hfg hf i e u hg => by simp [hfg hf i e u hg]

end Hands

end BrowserHost.Instance
