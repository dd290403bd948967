import BrowserHost.Proofs.Stream
import Mathlib.Data.List.Dedup

/-!
# BrowserHost.Proofs.Enrolment

Who is registered, by what was asked of the hub so far.  The log of a run says
which registrations and unregistrations succeeded, those in the midst of tellings
included; the registries are worked out from that alone, and held against what
the hub replies.

* `enrolments`: what succeeded, read off a log;
* `roll`: who is registered, in the order of the latest registrations;
* `registries_follow_enrolments`: in every run of a hub the registries are what
  the rolls say, and so are the replies and the counts.
-/

namespace BrowserHost.Instance

open Hub

/-! ## enrolments -/

/-- A registration or an unregistration. -/
structure Enrolment where
  role : Role
  observer : ObserverId
  joins : Bool
  deriving DecidableEq, Repr

/-- What a call is about if it is about a registry, when `next` is the number of
the next nameless observer. -/
def Call.enrolment? (next : Nat) : Call → Option Enrolment
  | .register role name _ => some ⟨role, .named name, true⟩
  | .registerQuiet => some ⟨.lifecycle, .quiet next, true⟩
  | .unregister role name _ => some ⟨role, .named name, false⟩
  | _ => none

/-- How many nameless observers a call brings, registered or not. -/
def Call.quiets : Call → Nat
  | .registerQuiet => 1
  | _ => 0

/-- How many nameless observers an entry is about. -/
def Entry.quiets : Entry → Nat
  | .answered _ c _ => c.quiets
  | _ => 0

/-- How many nameless observers a log brings. -/
def quiets : List Entry → Nat
  | [] => 0
  | e :: es => e.quiets + quiets es

/-- What an entry says succeeded, when `next` is the number of the next nameless
observer. -/
def Entry.enrolment? (next : Nat) : Entry → Option Enrolment
  | .answered _ c .done => c.enrolment? next
  | _ => none

/-- The registrations and unregistrations that succeeded, oldest first, when
`next` is the number of the next nameless observer. -/
def enrolments (next : Nat) : List Entry → List Enrolment
  | [] => []
  | e :: es => (e.enrolment? next).toList ++ enrolments (next + e.quiets) es

/-- Those who joined, in order. -/
def joined (role : Role) (hs : List Enrolment) : List ObserverId :=
  (hs.filter fun e => e.role = role ∧ e.joins).map (·.observer)

/-- Those who left, in order. -/
def departed (role : Role) (hs : List Enrolment) : List ObserverId :=
  (hs.filter fun e => e.role = role ∧ !e.joins).map (·.observer)

/-- Whether the last thing an observer did was to join. -/
def stays (role : Role) (hs : List Enrolment) (o : ObserverId) : Bool :=
  ((hs.filter fun e => e.role = role ∧ e.observer = o).getLast?).any (·.joins)

/-- Those who joined and stay, each at the place where it joined last. -/
def roll (role : Role) (hs : List Enrolment) : List ObserverId :=
  (joined role hs).dedup.filter (stays role hs)

section

variable {role : Role} {o : ObserverId} {hs : List Enrolment} {e : Enrolment}

theorem dedup_concat (l : List ObserverId) (o : ObserverId) :
    (l ++ [o]).dedup = l.dedup.filter (· ≠ o) ++ [o] := by
  induction l with
  | nil => simp
  | cons a l ih =>
    rw [List.cons_append, List.dedup_cons, List.dedup_cons, ih]
    by_cases ha : a ∈ l <;> by_cases hao : a = o <;> simp_all

theorem roll_nodup (role : Role) (hs : List Enrolment) : (roll role hs).Nodup :=
  (List.nodup_dedup _).filter _

theorem stays_concat (hs : List Enrolment) (e : Enrolment) (o : ObserverId) :
    stays role (hs ++ [e]) o =
      if e.role = role ∧ e.observer = o then e.joins else stays role hs o := by
  unfold stays
  rw [List.filter_append]
  split
  · next h => simp [h]
  · next h => simp [h]

theorem joined_concat (role : Role) (hs : List Enrolment) (e : Enrolment) :
    joined role (hs ++ [e]) =
      joined role hs ++ if e.role = role ∧ e.joins then [e.observer] else [] := by
  unfold joined
  rw [List.filter_append, List.map_append]
  split
  · next h => simp [h]
  · next h => simp [h]

theorem departed_concat (role : Role) (hs : List Enrolment) (e : Enrolment) :
    departed role (hs ++ [e]) =
      departed role hs ++ if e.role = role ∧ !e.joins then [e.observer] else [] := by
  unfold departed
  rw [List.filter_append, List.map_append]
  split
  · next h => simp [h]
  · next h => simpa using h

/-- What happens in the other registry. -/
theorem roll_concat_of_ne (h : e.role ≠ role) : roll role (hs ++ [e]) = roll role hs := by
  have hstays : stays role (hs ++ [e]) = stays role hs := by
    funext o
    rw [stays_concat, if_neg fun hrole => h hrole.1]
  unfold roll
  rw [hstays, joined_concat, if_neg fun hrole => h hrole.1, List.append_nil]

/-- One more joins, at the end. -/
theorem roll_join (ho : o ∉ roll role hs) :
    roll role (hs ++ [⟨role, o, true⟩]) = roll role hs ++ [o] := by
  have hjoined : joined role (hs ++ [⟨role, o, true⟩]) = joined role hs ++ [o] := by
    simp [joined_concat]
  unfold roll at ho ⊢
  rw [hjoined, dedup_concat, List.filter_append, List.filter_filter]
  congr 1
  · refine List.filter_congr fun p hp => ?_
    rw [stays_concat]
    by_cases hop : o = p
    · subst hop
      have hgone : stays role hs o ≠ true := fun hs' => ho (List.mem_filter.2 ⟨hp, hs'⟩)
      simpa using hgone
    · simp [hop, Ne.symm hop]
  · simp [stays_concat]

/-- One leaves. -/
theorem roll_leave :
    roll role (hs ++ [⟨role, o, false⟩]) = (roll role hs).erase o := by
  have hjoined : joined role (hs ++ [⟨role, o, false⟩]) = joined role hs := by
    simp [joined_concat]
  rw [(roll_nodup role hs).erase_eq_filter]
  unfold roll
  rw [hjoined, List.filter_filter]
  refine List.filter_congr fun p hp => ?_
  rw [stays_concat]
  by_cases hop : o = p
  · simp [hop]
  · simp [hop, Ne.symm hop]

theorem enrolments_concat (next : Nat) (es : List Entry) (e : Entry) :
    enrolments next (es ++ [e]) =
      enrolments next es ++ (e.enrolment? (next + quiets es)).toList := by
  induction es generalizing next with
  | nil => simp [enrolments, quiets]
  | cons d es ih => simp [enrolments, quiets, ih, Nat.add_assoc]

theorem quiets_concat (es : List Entry) (e : Entry) :
    quiets (es ++ [e]) = quiets es + e.quiets := by
  induction es with
  | nil => simp [quiets]
  | cons d es ih => rw [List.cons_append, quiets, quiets, ih, Nat.add_assoc]

theorem isDropped_concat (es : List Entry) (e : Entry) :
    isDropped (es ++ [e]) = (isDropped es || isDropped [e]) := by
  simp [isDropped]

end

/-! ## one enrolment -/

/-- Try it on a hub. -/
def Enrolment.apply (e : Enrolment) (h : Hub) : Except Fault Hub :=
  if e.joins then h.register e.role e.observer else h.unregister e.role e.observer

/-- Whether it can succeed after others: those join who are not there, and those
leave who are. -/
def Enrolment.Fits (hs : List Enrolment) (e : Enrolment) : Prop :=
  e.joins ↔ e.observer ∉ roll e.role hs

/-- The registries are those that enrolments lead to. -/
structure Enrolled (h : Hub) (hs : List Enrolment) : Prop where
  members : ∀ role, (h.registry role).members = roll role hs
  balance : ∀ role, (roll role hs).length + (departed role hs).length = (joined role hs).length

section

variable {h h' : Hub} {hs : List Enrolment} {e : Enrolment}

theorem balance_concat (hfits : e.Fits hs)
    (hb : ∀ role, (roll role hs).length + (departed role hs).length = (joined role hs).length)
    (role : Role) :
    (roll role (hs ++ [e])).length + (departed role (hs ++ [e])).length =
      (joined role (hs ++ [e])).length := by
  have hbefore := hb role
  rw [joined_concat, departed_concat]
  by_cases hrole : e.role = role
  · subst hrole
    obtain ⟨role, o, joins⟩ := e
    cases joins with
    | true =>
      have ho : o ∉ roll role hs := by simpa [Enrolment.Fits] using hfits
      simp [roll_join ho] at hbefore ⊢
      omega
    | false =>
      have ho : o ∈ roll role hs := by simpa [Enrolment.Fits] using hfits
      have hpos := List.length_pos_of_mem ho
      simp [roll_leave, List.length_erase_of_mem ho] at hbefore ⊢
      omega
  · rw [roll_concat_of_ne hrole]
    simpa [hrole] using hbefore

/-- An enrolment that fits succeeds, and changes its own registry alone. -/
theorem Enrolled.apply_ok (hh : Enrolled h hs) (hfits : e.Fits hs) :
    ∃ h', e.apply h = .ok h' ∧ h'.channel = h.channel ∧ Enrolled h' (hs ++ [e]) ∧
      ∀ role, role ≠ e.role → h'.registry role = h.registry role := by
  obtain ⟨role, o, joins⟩ := e
  have hchannel (r : Registry) : (h.setRegistry r role).channel = h.channel := by
    cases role <;> rfl
  have hother (r : Registry) (role' : Role) (hne : role' ≠ role) :
      (h.setRegistry r role).registry role' = h.registry role' := by
    rw [registry_setRegistry, if_neg (Ne.symm hne)]
  -- the registry of the role is the new one, the other what it was
  have hset (r : Registry) (hr : r.members = roll role (hs ++ [⟨role, o, joins⟩])) :
      Enrolled (h.setRegistry r role) (hs ++ [⟨role, o, joins⟩]) := by
    refine ⟨fun role' => ?_, balance_concat hfits hh.balance⟩
    by_cases hrole : role = role'
    · rw [registry_setRegistry, if_pos hrole, hr, hrole]
    · rw [registry_setRegistry, if_neg hrole, roll_concat_of_ne hrole, hh.members]
  cases joins with
  | true =>
    have ho : o ∉ roll role hs := by simpa [Enrolment.Fits] using hfits
    have hmem : o ∉ (h.registry role).members := by rwa [hh.members]
    refine ⟨h.setRegistry ⟨(h.registry role).members ++ [o]⟩ role, ?_, hchannel _,
      hset _ (by rw [roll_join ho, hh.members]), hother _⟩
    simp [Enrolment.apply, Hub.register, Registry.register, hmem, Except.map]
  | false =>
    have ho : o ∈ roll role hs := by simpa [Enrolment.Fits] using hfits
    have hmem : o ∈ (h.registry role).members := by rwa [hh.members]
    refine ⟨h.setRegistry ⟨(h.registry role).members.erase o⟩ role, ?_, hchannel _,
      hset _ (by rw [roll_leave, hh.members]), hother _⟩
    simp [Enrolment.apply, Hub.unregister, Registry.unregister, hmem, Except.map]

/-- The fault of one that does not fit. -/
def Enrolment.fault (e : Enrolment) : Fault :=
  if e.joins then .observerAlreadyRegistered else .observerNotRegistered

theorem Enrolled.apply_error (hh : Enrolled h hs) (hfits : ¬e.Fits hs) :
    e.apply h = .error e.fault := by
  obtain ⟨role, o, joins⟩ := e
  cases joins with
  | true =>
    have ho : o ∈ (h.registry role).members := by
      rw [hh.members]
      simpa [Enrolment.Fits] using hfits
    simp [Enrolment.apply, Hub.register, Registry.register, ho, Except.map, Enrolment.fault]
  | false =>
    have ho : o ∉ (h.registry role).members := by
      rw [hh.members]
      simpa [Enrolment.Fits] using hfits
    simp [Enrolment.apply, Hub.unregister, Registry.unregister, ho, Except.map, Enrolment.fault]

/-- What is done to the channel is no matter to the registries. -/
theorem Enrolled.withChannel (hh : Enrolled h hs) (c : Channel) :
    Enrolled { h with channel := c } hs where
  members role := by
    rw [← hh.members]
    cases role <;> rfl
  balance := hh.balance

/-- Where there is a hub and the enrolment fits it is done, otherwise nothing is. -/
theorem edit_enrolment {z : Instance} (hz : Enrolled z.hub hs) (e : Enrolment) :
    (z.hub.isOpen ∧ e.Fits hs ∧ ∃ h', edit e.apply z = (.done, { z with hub := h' }) ∧
      h'.channel = z.hub.channel ∧ Enrolled h' (hs ++ [e]) ∧
        ∀ role, role ≠ e.role → h'.registry role = z.hub.registry role) ∨
      ¬(z.hub.isOpen ∧ e.Fits hs) ∧
        edit e.apply z = (if z.hub.isOpen then .fault e.fault else .noHub, z) := by
  by_cases hopen : z.hub.isOpen
  · by_cases hfits : e.Fits hs
    · obtain ⟨h', hok, hchannel, henrolled, hother⟩ := hz.apply_ok hfits
      exact .inl ⟨hopen, hfits, h', by simp [edit, hopen, hok], hchannel, henrolled, hother⟩
    · exact .inr ⟨fun h => hfits h.2, by simp [edit, hopen, hz.apply_error hfits]⟩
  · exact .inr ⟨fun h => hopen h.1, by simp [edit, hopen]⟩

end

/-! ## enrolments in a log -/

/-- The hub is what the log makes of a new one. -/
structure Tallied (z : Instance) (es : List Entry) : Prop where
  quiet : z.quiet = quiets es
  isOpen : z.hub.isOpen = !isDropped es
  enrolled : Enrolled z.hub (enrolments 0 es)

section

variable {z : Instance} {es : List Entry} {c : Call} {e : Enrolment}

/-- A call about a registry tries an enrolment, whoever is known by then. -/
theorem performWith_enrolment (he : c.enrolment? z.quiet = some e) :
    ∃ os, performWith idle c z =
      edit e.apply { z with observers := os, quiet := z.quiet + c.quiets } := by
  cases c with
  | register role name rs =>
    obtain ⟨os, hos⟩ := mention_frame z name rs
    obtain rfl := Option.some.inj he
    refine ⟨os, ?_⟩
    simp only [performWith, hos]
    rfl
  | unregister role name rs =>
    obtain ⟨os, hos⟩ := mention_frame z name rs
    obtain rfl := Option.some.inj he
    refine ⟨os, ?_⟩
    simp only [performWith, hos]
    rfl
  | registerQuiet =>
    obtain rfl := Option.some.inj he
    exact ⟨z.observers, rfl⟩
  | _ => cases he

theorem isDirect_of_enrolment (he : c.enrolment? z.quiet = some e) : c.isDirect := by
  cases c <;> first | rfl | cases he

theorem isDropped_answered (name : String) (r : Reply) (hc : c ≠ .dropHub) :
    isDropped [.answered name c r] = false := by
  cases c <;> first | rfl | exact absurd rfl hc

/-- A call about no registry is about none at any time. -/
theorem enrolment?_eq_none {next : Nat} (hc : c.enrolment? next = none) (next' : Nat) :
    c.enrolment? next' = none ∧ c.quiets = 0 := by
  cases c <;> first | exact ⟨rfl, rfl⟩ | cases hc

/-- A call about no registry is about the channel, if the hub answers it at once. -/
theorem performWith_channel (hdirect : c.isDirect) {next : Nat} (hc : c.enrolment? next = none)
    (z : Instance) :
    ∃ ch, (performWith idle c z).2 = { z with hub := { z.hub with channel := ch } } := by
  cases c with
  | subscribe id =>
    simp only [performWith, subscribe]
    split <;> exact ⟨_, rfl⟩
  | dropHub | unsubscribe id | receive id m => exact ⟨_, rfl⟩
  | register _ _ _ | registerQuiet | unregister _ _ _ => cases hc
  | _ => cases hdirect

theorem isOpen_onChannel (ch : Channel) (name : String) (r : Reply) (c : Call) :
    (c.onChannel ch).isOpen = (ch.isOpen && !isDropped [.answered name c r]) := by
  cases c with
  | dropHub => simp [Call.onChannel, isDropped]
  | subscribe id =>
    simp only [Call.onChannel, isDropped]
    split <;> simp [Channel.subscribe, Channel.setPlace]
  | receive id m =>
    simp only [Call.onChannel, isDropped, Channel.receive]
    split <;> simp [Channel.setPlace]
  | unsubscribe id => simp [Call.onChannel, isDropped, Channel.unsubscribe]
  | _ => simp [Call.onChannel, isDropped]

/-- An entry that is about no enrolment, and no nameless observer. -/
theorem Tallied.skip {z' : Instance} {d : Entry} (hz : Tallied z es)
    (hnone : ∀ next, d.enrolment? next = none) (hquiets : d.quiets = 0)
    (hq : z'.quiet = z.quiet) (hopen : z'.hub.isOpen = (z.hub.isOpen && !isDropped [d]))
    (henrolled : ∃ ch, z'.hub = { z.hub with channel := ch }) : Tallied z' (es ++ [d]) where
  quiet := by rw [hq, hz.quiet, quiets_concat, hquiets, Nat.add_zero]
  isOpen := by rw [hopen, hz.isOpen, isDropped_concat, Bool.not_or]
  enrolled := by
    obtain ⟨ch, hch⟩ := henrolled
    rw [enrolments_concat, hnone, Option.toList_none, List.append_nil, hch]
    exact hz.enrolled.withChannel ch

/-- A call about a registry is answered as the log so far has it. -/
theorem Tallied.enrol (hz : Tallied z es) (he : c.enrolment? z.quiet = some e) (name : String)
    {r : Reply} (hr : r = (performWith idle c z).1) :
    (r = .done ↔ z.hub.isOpen ∧ e.Fits (enrolments 0 es)) ∧
      Tallied (performWith idle c z).2 (es ++ [.answered name c r]) ∧
      ∀ role, r ≠ .done ∨ role ≠ e.role →
        (performWith idle c z).2.hub.registry role = z.hub.registry role := by
  obtain ⟨os, hperform⟩ := performWith_enrolment he
  have hnext : 0 + quiets es = z.quiet := by rw [hz.quiet, Nat.zero_add]
  have hquiet : z.quiet + c.quiets = quiets (es ++ [.answered name c r]) := by
    rw [quiets_concat, hz.quiet]
    rfl
  have hdropped : isDropped (es ++ [.answered name c r]) = isDropped es := by
    have hc : c ≠ .dropHub := by
      rintro rfl
      cases he
    rw [isDropped_concat, isDropped_answered name r hc, Bool.or_false]
  have henrolled : Enrolled ({ z with observers := os, quiet := z.quiet + c.quiets } : Instance).hub
      (enrolments 0 es) := hz.enrolled
  rcases edit_enrolment henrolled e with ⟨hopen, hfits, h', heq, hchannel, hh', hother⟩ | ⟨hno, heq⟩
  · rw [hperform, heq] at hr
    subst hr
    rw [hperform, heq]
    refine ⟨⟨fun _ => ⟨hopen, hfits⟩, fun _ => rfl⟩, ⟨hquiet, ?_, ?_⟩, fun role hrole => ?_⟩
    · rw [hdropped, ← hz.isOpen]
      exact congrArg Channel.isOpen hchannel
    · rw [enrolments_concat, hnext]
      simp only [Entry.enrolment?, he, Option.toList_some]
      exact hh'
    · exact hother role (hrole.resolve_left fun hne => hne rfl)
  · rw [hperform, heq] at hr
    have hne : r ≠ .done := by
      rw [hr]
      simp only
      split <;> simp
    have hnone : Entry.enrolment? z.quiet (.answered name c r) = none := by
      cases r <;> first | rfl | exact absurd rfl hne
    rw [hperform, heq]
    refine ⟨⟨fun h => absurd h hne, fun h => absurd h hno⟩, ⟨hquiet, ?_, ?_⟩, fun _ _ => rfl⟩
    · rw [hdropped]
      exact hz.isOpen
    · rw [enrolments_concat, hnext, hnone, Option.toList_none, List.append_nil]
      exact hz.enrolled

/-- One more entry of a log. -/
theorem Tallied.step (hz : Tallied z es) {d : Entry} (hd : d.IsTrue z) :
    Tallied (Entry.replay z d) (es ++ [d]) := by
  cases d with
  | answered name c r =>
    obtain ⟨-, hreply⟩ := hd
    simp only [Entry.replay]
    cases he : c.enrolment? z.quiet with
    | some e =>
      have hdirect := isDirect_of_enrolment he
      rw [if_pos hdirect]
      exact (hz.enrol he name (hreply hdirect)).2.1
    | none =>
      have hnone (next : Nat) : Entry.enrolment? next (.answered name c r) = none := by
        cases r <;> first | rfl | exact (enrolment?_eq_none he next).1
      have hquiets : Entry.quiets (.answered name c r) = 0 := (enrolment?_eq_none he 0).2
      split
      · next hdirect =>
        have hopen : (performWith idle c z).2.hub.isOpen =
            (z.hub.isOpen && !isDropped [.answered name c r]) :=
          (congrArg Channel.isOpen (direct_channel hdirect z)).trans (isOpen_onChannel _ name r c)
        obtain ⟨ch, hch⟩ := performWith_channel hdirect he z
        exact hz.skip hnone hquiets (by rw [hch]) hopen ⟨ch, by rw [hch]⟩
      · next hdirect =>
        have hc : c ≠ .dropHub := by
          rintro rfl
          exact hdirect rfl
        refine hz.skip hnone hquiets rfl ?_ ⟨_, rfl⟩
        rw [isDropped_answered name r hc, Bool.not_false, Bool.and_true]
  | told k n =>
    refine hz.skip (fun _ => rfl) rfl rfl ?_ ⟨_, rfl⟩
    have hopen : (z.hub.channel.publish n).isOpen = z.hub.channel.isOpen := by
      unfold Channel.publish
      split <;> rfl
    exact hopen.trans (Bool.and_true _).symm
  | _ => exact hz.skip (fun _ => rfl) rfl rfl (Bool.and_true _).symm ⟨_, rfl⟩

/-- At every moment of an account of a new hub. -/
theorem Account.tallied {outer : Option (Nat × Notice)} {x y : Instance} (h : Account outer x y es)
    (hx : Tallied x []) {before rest : List Entry} (hsplit : es = before ++ rest) :
    Tallied (replay x before) before := by
  induction before using List.reverseRecOn generalizing rest with
  | nil => exact hx
  | append_singleton before d ih =>
    have hat : es = before ++ d :: rest := by simpa using hsplit
    have hbefore := ih hat
    rw [replay_append]
    exact hbefore.step (h.isTrue hat)

theorem Tallied.ofCapacity {capacity : Nat} {h : Hub} (hh : Hub.ofCapacity? capacity = some h)
    (s : BrowserSettings) (os : List Observer) :
    Tallied { ofSettings s with hub := h, observers := os } [] := by
  obtain rfl : { channel := .ofCapacity capacity } = h := by
    unfold Hub.ofCapacity? at hh
    split at hh
    · cases hh
    · exact Option.some.inj hh
  refine ⟨rfl, rfl, ⟨fun role => ?_, fun role => ?_⟩⟩ <;> cases role <;> rfl

/-- In every run of a hub, with whatever observers do in the midst of tellings, and
at every moment of it: each registry holds those who joined and stay, nobody twice,
in the order in which they joined last, and its count is that of the
registrations less that of the unregistrations.  A registration succeeds exactly
if the observer is not there, an unregistration exactly if it is, as long as there
is a hub; one that fails changes nothing, and none changes the other registry. -/
theorem registries_follow_enrolments {conduct : Conduct} (hconduct : conduct.CallsHub)
    (depth : Nat) (s : BrowserSettings) {capacity : Nat} {h : Hub}
    (hh : Hub.ofCapacity? capacity = some h) {os : List Observer}
    (hos : ∀ o ∈ os, Reaction.everyAll Call.isHub o.reactions) (caller : String) {cs : List Call}
    (hcs : Call.everyAll Call.isHub cs) :
    let x : Instance := { ofSettings s with hub := h, observers := os }
    let y := react (performAs conduct depth) caller x cs
    let log := y.journal.reverse
    (∀ before rest, log = before ++ rest → ∀ role,
      let hs := enrolments 0 before
      let r := (replay x before).hub.registry role
      r.members = roll role hs ∧ r.members.Nodup ∧
        r.count + (departed role hs).length = (joined role hs).length) ∧
      (∀ before a c r rest e, log = before ++ .answered a c r :: rest →
        c.enrolment? (quiets before) = some e →
          (r = .done ↔ isDropped before = false ∧ e.Fits (enrolments 0 before)) ∧
          ∀ role, r ≠ .done ∨ role ≠ e.role →
            (replay x (before ++ [.answered a c r])).hub.registry role =
              (replay x before).hub.registry role) ∧
      y.hub = (replay x log).hub ∧
      y.status.observers =
        ((roll .state (enrolments 0 log)).length, (roll .lifecycle (enrolments 0 log)).length) := by
  intro x y log
  obtain ⟨-, es, hes⟩ :=
    react_account (x := x) (performAs_reports hconduct depth) caller hcs hos
  have hlog : log = es := by
    have hfresh : x.journal = [] := rfl
    simp only [log, y, hes.journal, hfresh, List.append_nil, List.reverse_reverse]
  have htallied {before rest : List Entry} (hsplit : log = before ++ rest) :
      Tallied (replay x before) before :=
    hes.tallied (.ofCapacity hh s os) (hlog ▸ hsplit)
  have hhub : y.hub = (replay x log).hub := by
    rw [hlog]
    exact (Prod.mk.inj hes.desk).1.symm
  refine ⟨fun before rest hsplit role => ?_, fun before a c r rest e hsplit he => ?_, hhub, ?_⟩
  · have henrolled := (htallied hsplit).enrolled
    refine ⟨henrolled.members role, ?_, ?_⟩
    · rw [henrolled.members role]
      exact roll_nodup role _
    · rw [Registry.count, henrolled.members role]
      exact henrolled.balance role
  · have hz := htallied hsplit
    rw [← hz.quiet] at he
    have hat : es = before ++ .answered a c r :: rest := hlog ▸ hsplit
    have hreply := (hes.replies _ _ _ _ _ hat).2 (isDirect_of_enrolment he)
    obtain ⟨hdone, -, hsame⟩ := hz.enrol he a hreply
    refine ⟨?_, fun role hrole => ?_⟩
    · rw [hdone, hz.isOpen, Bool.not_eq_true']
    · have hdirect := isDirect_of_enrolment he
      have hstep : replay x (before ++ [.answered a c r]) =
          (performWith idle c (replay x before)).2 := by
        rw [replay_append]
        exact if_pos hdirect
      rw [hstep]
      exact hsame role hrole
  · have henrolled := (htallied (List.append_nil log).symm).enrolled
    rw [← hhub] at henrolled
    have hcount (role : Role) :
        (y.hub.registry role).count = (roll role (enrolments 0 log)).length := by
      rw [Registry.count, henrolled.members role]
    exact Prod.ext (hcount .state) (hcount .lifecycle)

/-- An observer that, while it is told something, joins the other registry, sends
another one to the end of the queue, and tries to join where it is. -/
def gathering : List Call :=
  [.register .lifecycle "a" [⟨.urlChanged "u", .register .state "a" [], 1⟩,
      ⟨.urlChanged "u", .unregister .lifecycle "b" [], 1⟩,
      ⟨.urlChanged "u", .register .lifecycle "b" [], 1⟩,
      ⟨.urlChanged "u", .register .lifecycle "a" [], 1⟩],
    .register .lifecycle "b" [], .registerQuiet, .notify (.urlChanged "u")]

theorem registries_follow_enrolments_gathering :
    let x : Instance :=
      { ofSettings ({} : Settings).browser with hub := { channel := { capacity := 1 } } }
    let y := react call "shell" x gathering
    let log := y.journal.reverse
    (y.hub.registry .lifecycle).members = roll .lifecycle (enrolments 0 log) ∧
      roll .lifecycle (enrolments 0 log) = [.named "a", .quiet 0, .named "b"] ∧
      y.status.observers = (1, 3) := by
  intro x
  have hh : Hub.ofCapacity? 1 = some { channel := { capacity := 1 } } := by decide +kernel
  have hsilent : ∀ o ∈ ([] : List Observer), Reaction.everyAll Call.isHub o.reactions := by simp
  have hcalls : Call.everyAll Call.isHub gathering := rfl
  have hready : Ready x := ⟨List.nodup_nil, hsilent⟩
  have hrun : react call "shell" x gathering = react (performAs steady 20) "shell" x gathering :=
    react_call hready hcalls (by decide) "shell"
  rw [hrun]
  intro y log
  have hroll : roll .lifecycle (enrolments 0 log) = [.named "a", .quiet 0, .named "b"] := by
    decide +kernel
  have hstate : roll .state (enrolments 0 log) = [.named "a"] := by decide +kernel
  obtain ⟨hall, -, hhub, hcount⟩ :=
    registries_follow_enrolments steady_callsHub 20 ({} : Settings).browser hh hsilent "shell"
      hcalls
  have hmembers : (y.hub.registry .lifecycle).members = roll .lifecycle (enrolments 0 log) :=
    (congrArg (fun h => (h.registry .lifecycle).members) hhub).trans
      (hall log [] (List.append_nil _).symm .lifecycle).1
  have hobservers : y.status.observers =
      ((roll .state (enrolments 0 log)).length, (roll .lifecycle (enrolments 0 log)).length) :=
    hcount
  refine ⟨hmembers, hroll, ?_⟩
  rw [hobservers, hroll, hstate]
  rfl

end

end BrowserHost.Instance
