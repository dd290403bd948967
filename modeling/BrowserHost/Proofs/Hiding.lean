import BrowserHost.Proofs.Decision
import BrowserHost.Proofs.Ledger
import BrowserHost.Proofs.Order

/-!
# BrowserHost.Proofs.Hiding

What observers are told about the visibility of an instance, over all of its
sessions together.  A flag flips at once and is told of when the loop of the
session gets to it, perhaps while that loop is being shut down; it outlives the
session.

* `flips`, `flagsTold`: the flags that callers set and those that were told;
* `Shown`: the flips not told of yet wait on the loop of the latest session;
* `flags_told_in_order`: what is told are the first of the flips, which blink,
  and all of them once nothing waits.
-/

namespace BrowserHost.Instance

open Engine

/-! ## flags in the journal -/

/-- The flag that an entry says was set. -/
def Entry.flip? : Entry → Option Bool
  | .flipped h => some h
  | _ => none

/-- The flag that an entry says is being told of. -/
def Entry.flagTold? : Entry → Option Bool
  | .telling _ (.hidden h) => some h
  | _ => none

/-- The flags that callers set, oldest first. -/
def flips (j : List Entry) : List Bool :=
  (j.filterMap Entry.flip?).reverse

/-- The flags that observers were told, oldest first. -/
def flagsTold (j : List Entry) : List Bool :=
  (j.filterMap Entry.flagTold?).reverse

/-- The flags that tasks are to show. -/
def flagsOf (ts : List Task) : List Bool :=
  ts.filterMap fun t => flag? (.run t)

/-- The flags that a loop has still to show. -/
def flagsLeft (l : Loop) : List Bool :=
  l.queue.filterMap flag?

/-- So many flags in turn, from `true` on. -/
def blink (n : Nat) : List Bool :=
  (List.range n).map fun k => k % 2 == 0

/-- Whenever a session began, every loop had run the visibility tasks that it
had accepted. -/
def ClearStarts : List Entry → Prop
  | [] => True
  | .began .. :: j => (∀ e, flagsOf (accepted e j) = flagsOf (executed e j)) ∧ ClearStarts j
  | _ :: j => ClearStarts j

/-- A call that does not itself tell of a flag. -/
def Call.tellsNoFlag : Call → Bool
  | .notify (.hidden _) => false
  | _ => true

section

variable {j k : List Entry}

theorem flips_cons (e : Entry) (j : List Entry) : flips (e :: j) = flips j ++ e.flip?.toList := by
  unfold flips
  cases h : e.flip? <;> simp [h]

theorem flagsTold_cons (e : Entry) (j : List Entry) :
    flagsTold (e :: j) = flagsTold j ++ e.flagTold?.toList := by
  unfold flagsTold
  cases h : e.flagTold? <;> simp [h]

theorem flips_of_suffix (h : k <:+ j) : flips k <+: flips j := by
  obtain ⟨es, rfl⟩ := h
  unfold flips
  rw [List.filterMap_append, List.reverse_append]
  exact List.prefix_append _ _

theorem ClearStarts.of_cons {e : Entry} (h : ClearStarts (e :: j)) : ClearStarts j := by
  cases e with
  | began _ _ => exact h.2
  | _ => exact h

theorem ClearStarts.of_suffix (h : ClearStarts j) (hk : k <:+ j) : ClearStarts k := by
  obtain ⟨es, rfl⟩ := hk
  induction es with
  | nil => exact h
  | cons e es ih => exact ih h.of_cons

instance (j : List Entry) : Decidable (∀ e, flagsOf (accepted e j) = flagsOf (executed e j)) :=
  decidable_of_iff
    (∀ e ∈ j.filterMap Entry.account?, flagsOf (accepted e j) = flagsOf (executed e j)) <| by
    refine ⟨fun h e => ?_, fun h e _ => h e⟩
    by_cases he : e ∈ j.filterMap Entry.account?
    · exact h e he
    · obtain ⟨ha, hr, -⟩ := of_fresh fun d hd hde => he (List.mem_filterMap.2 ⟨d, hd, hde⟩)
      rw [ha, hr]

instance : DecidablePred ClearStarts := fun j => go j
where
  go : (j : List Entry) → Decidable (ClearStarts j)
    | [] => .isTrue trivial
    | .began .. :: j => @instDecidableAnd _ _ inferInstance (go j)
    | .requested .. :: j | .ended _ :: j | .navigated _ :: j | .flipped _ :: j | .frame _ :: j
    | .queued .. :: j | .ran .. :: j | .created .. :: j | .submitted .. :: j | .loaded .. :: j
    | .viewed .. :: j | .dropped _ :: j | .telling .. :: j | .heard .. :: j | .answered .. :: j
    | .told .. :: j => go j

theorem flagsOf_append (ts us : List Task) : flagsOf (ts ++ us) = flagsOf ts ++ flagsOf us :=
  List.filterMap_append

end

/-! ## blinking -/

theorem blink_succ (n : Nat) : blink (n + 1) = blink n ++ [n % 2 == 0] := by
  simp [blink, List.range_succ]

theorem length_blink (n : Nat) : (blink n).length = n := by
  simp [blink]

/-- The last of some flags that blink; none was shown before the first. -/
theorem getLast?_blink (n : Nat) : (blink n).getLast?.getD false = (n % 2 == 1) := by
  cases n with
  | zero => rfl
  | succ n =>
    rw [blink_succ, List.getLast?_concat, Option.getD_some]
    rcases Nat.mod_two_eq_zero_or_one n with h | h <;> simp [Nat.add_mod, h]

theorem eq_blink_of_append {fs gs : List Bool} {n : Nat} (h : fs ++ gs = blink n) :
    fs = blink fs.length := by
  have hle : fs.length ≤ n := by
    have := congrArg List.length h
    rw [List.length_append, length_blink] at this
    omega
  calc fs = (fs ++ gs).take fs.length := List.take_left.symm
    _ = (blink n).take fs.length := by rw [h]
    _ = blink fs.length := by
      unfold blink
      rw [← List.map_take, List.take_range, Nat.min_eq_left hle]

/-! ## flags in order -/

/-- The journal tells of the flips in order, but for those that are `left`; the
flips blink, and the last one is the flag. -/
structure Candid (hidden : Bool) (j : List Entry) (left : List Bool) : Prop where
  waiting : flips j = flagsTold j ++ left
  ordered : ∀ k, k <:+ j → flagsTold k <+: flips k
  blinking : flips j = blink (flips j).length
  hidden : (flips j).getLast?.getD false = hidden

namespace Candid

variable {hidden h : Bool} {j : List Entry} {left : List Bool} {e : Entry}

theorem fresh : Candid false [] [] := by
  constructor <;> simp [flips, flagsTold, blink]

/-- One entry more, of which the flips and the flags told are known. -/
theorem ordered_cons (hj : Candid hidden j left) (h : flagsTold (e :: j) <+: flips (e :: j)) :
    ∀ k, k <:+ e :: j → flagsTold k <+: flips k := by
  intro k hk
  rcases List.suffix_cons_iff.1 hk with rfl | hk
  · exact h
  · exact hj.ordered k hk

/-- An entry that is about no flag. -/
theorem note (hj : Candid hidden j left) (hflip : e.flip? = none) (htold : e.flagTold? = none) :
    Candid hidden (e :: j) left := by
  have hflips : flips (e :: j) = flips j := by simp [flips_cons, hflip]
  have htolds : flagsTold (e :: j) = flagsTold j := by simp [flagsTold_cons, htold]
  refine ⟨?_, hj.ordered_cons ?_, ?_, ?_⟩
  · rw [hflips, htolds, hj.waiting]
  · rw [hflips, htolds]
    exact hj.ordered j List.suffix_rfl
  · rw [hflips]
    exact hj.blinking
  · rw [hflips]
    exact hj.hidden

/-- The flag flips. -/
theorem flip (hj : Candid hidden j left) (hh : hidden ≠ h) :
    Candid h (.flipped h :: j) (left ++ [h]) := by
  have hflips : flips (.flipped h :: j) = flips j ++ [h] := by simp [flips_cons, Entry.flip?]
  have htold : flagsTold (.flipped h :: j) = flagsTold j := by
    simp [flagsTold_cons, Entry.flagTold?]
  -- so many flips have left the flag as it is
  have hparity : hidden = ((flips j).length % 2 == 1) := by
    rw [← hj.hidden, hj.blinking, getLast?_blink, length_blink]
  have hnew : ((flips j).length % 2 == 0) = h := by
    rw [hparity] at hh
    rcases Nat.mod_two_eq_zero_or_one (flips j).length with hmod | hmod <;>
      cases h <;> simp_all
  refine ⟨?_, hj.ordered_cons ?_, ?_, ?_⟩
  · rw [hflips, htold, hj.waiting, List.append_assoc]
  · rw [hflips, htold]
    exact (hj.ordered j List.suffix_rfl).trans (List.prefix_append _ _)
  · rw [hflips, List.length_append, List.length_singleton, blink_succ, ← hj.blinking, hnew]
  · rw [hflips, List.getLast?_concat, Option.getD_some]

/-- The first flag that is left is told of. -/
theorem tell (hj : Candid hidden j (h :: left)) (k : Nat) :
    Candid hidden (.telling k (.hidden h) :: j) left := by
  have hflips : flips (.telling k (.hidden h) :: j) = flips j := by
    simp [flips_cons, Entry.flip?]
  have htold : flagsTold (.telling k (.hidden h) :: j) = flagsTold j ++ [h] := by
    simp [flagsTold_cons, Entry.flagTold?]
  have hwaiting : flips j = flagsTold j ++ [h] ++ left := by
    rw [hj.waiting, List.append_assoc]
    rfl
  refine ⟨?_, hj.ordered_cons ?_, ?_, ?_⟩
  · rw [hflips, htold, hwaiting]
  · rw [hflips, htold, hwaiting]
    exact List.prefix_append _ _
  · rw [hflips]
    exact hj.blinking
  · rw [hflips]
    exact hj.hidden

/-- At every moment what was told are the first of the flips, which blink. -/
theorem moment (hj : Candid hidden j left) {k : List Entry} (hk : k <:+ j) :
    flagsTold k <+: flips k ∧ flips k = blink (flips k).length := by
  obtain ⟨rest, hrest⟩ := flips_of_suffix hk
  exact ⟨hj.ordered k hk, eq_blink_of_append (hrest.trans hj.blinking)⟩

end Candid

/-! ## loops and sessions -/

/-- The session that is running is the latest, on a loop that accepts tasks; a
loop whose engine is being made has no session yet, and one that has ended has
nothing left. -/
structure Manned (x : Instance) : Prop where
  tied : x.owned = x.dispatcher
  placed : ∀ i ∈ x.sessions, i < x.loops.length
  current : ∀ i, x.dispatcher = some i →
    x.sessions.getLast? = some i ∧ ∃ l, x.loop? i = some l ∧ l.accepts
  building : ∀ i l, x.loop? i = some l → l.phase = .building → i ∉ x.sessions ∧ l.closed = false
  ended : ∀ i l, x.loop? i = some l → l.phase.isAlive = false → l.queue = []

/-- What the loop of that index can become. -/
structure Remains (x : Instance) (i : Nat) (l l' : Loop) : Prop where
  current : x.dispatcher = some i → l.accepts → l'.accepts
  building : l'.phase = .building → l.phase = .building ∧ l'.closed = l.closed
  ended : l'.phase.isAlive = false → l'.queue = []

theorem isAlive_of_accepts {l : Loop} (h : l.accepts) : l.phase.isAlive := by
  simp only [Loop.accepts, Bool.and_eq_true] at h
  exact h.2

namespace Remains

variable {x : Instance} {i : Nat} {l : Loop}

theorem touch {phase : Phase} (h : phase.rested = l.phase.rested) (v : View)
    (ticker : Option Ticker) (hend : l.phase.isAlive = false → l.queue = []) :
    Remains x i l { l with phase := phase, view := v, ticker := ticker } where
  current _ ha := by simpa only [Loop.accepts, isAlive_of_rested h] using ha
  building hb := by
    have hb' : phase = .building := hb
    subst hb'
    revert h
    cases l.phase <;> simp [Phase.rested]
  ended hdead := hend (isAlive_of_rested h ▸ hdead)

/-- A loop that takes a task. -/
theorem busy (hidle : l.phase = .idle) (rest : List Message) (v : View) :
    Remains x i l { l with phase := .busy, queue := rest, view := v } where
  current _ ha := by
    rw [Loop.accepts, hidle] at ha
    exact ha
  building := nofun
  ended := nofun

theorem push (ha : l.accepts) (t : Task) : Remains x i l (l.push t) := by
  have hpush : l.push t = { l with queue := l.queue ++ [.run t] } := by
    rw [Loop.push_eq, if_pos ha]
  rw [hpush]
  refine ⟨fun _ ha => ha, fun hb => ⟨hb, rfl⟩, fun hend => ?_⟩
  simp [isAlive_of_accepts ha] at hend

theorem close (hx : Manned x) (hl : x.loop? i = some l) (hd : x.dispatcher ≠ some i)
    (hb : l.phase ≠ .building) : Remains x i l l.close := by
  refine ⟨fun hi => absurd hi hd, fun hb' => absurd ?_ hb, fun hend => ?_⟩
  · revert hb'
    rw [Loop.close_eq]
    split <;> exact id
  · have hdead : l.phase.isAlive = false := by
      revert hend
      rw [Loop.close_eq]
      split <;> exact id
    have haccepts : l.accepts = false := by simp [Loop.accepts, hdead]
    rw [Loop.close_queue, haccepts, hx.ended i l hl hdead]
    rfl

/-- A loop that ends was accepting nothing, or has no session. -/
theorem finish {phase : Phase} (hphase : phase.isAlive = false)
    (hd : x.dispatcher = some i → l.accepts = false) : Remains x i l (l.finish phase) where
  current hi ha := by simp [hd hi] at ha
  building hb := by
    have hb' : phase = .building := hb
    simp [hb', Phase.isAlive] at hphase
  ended _ := rfl

end Remains

namespace Manned

variable {x : Instance} {i : Nat} {l l' : Loop}

theorem fresh (s : BrowserSettings) : Manned (ofSettings s) := by
  constructor <;> simp [ofSettings, loop?]

theorem lt_of_getLast? (hx : Manned x) (hi : x.sessions.getLast? = some i) :
    i < x.loops.length :=
  hx.placed i (List.mem_of_getLast? hi)

/-- A loop whose engine is being made is not that of the latest session. -/
theorem ne_of_building (hx : Manned x) (hl : x.loop? i = some l) (hb : l.phase = .building) :
    x.sessions.getLast? ≠ some i :=
  fun hi => (hx.building i l hl hb).1 (List.mem_of_getLast? hi)

theorem dispatcher_ne_of_building (hx : Manned x) (hl : x.loop? i = some l)
    (hb : l.phase = .building) : x.dispatcher ≠ some i :=
  fun hi => hx.ne_of_building hl hb (hx.current i hi).1

theorem setLoop (hx : Manned x) (hl : x.loop? i = some l) (h : Remains x i l l') :
    Manned (x.setLoop i l') := by
  have hlength : (x.setLoop i l').loops.length = x.loops.length := List.length_set
  refine ⟨hx.tied, fun k hk => hlength ▸ hx.placed k hk, ?_, ?_, ?_⟩
  · intro k hk
    obtain ⟨hlast, m, hm, ha⟩ := hx.current k hk
    refine ⟨hlast, ?_⟩
    by_cases hik : i = k
    · subst hik
      rw [hl] at hm
      obtain rfl := Option.some.inj hm
      exact ⟨l', by rw [loop?_setLoop hl, if_pos rfl], h.current hk ha⟩
    · exact ⟨m, by rw [loop?_setLoop hl, if_neg hik, hm], ha⟩
  · intro k m hm hb
    rcases setLoop_cases hl hm with ⟨rfl, rfl⟩ | ⟨-, hm⟩
    · obtain ⟨hb', hc⟩ := h.building hb
      exact ⟨(hx.building i l hl hb').1, hc.trans (hx.building i l hl hb').2⟩
    · exact hx.building k m hm hb
  · intro k m hm hend
    rcases setLoop_cases hl hm with ⟨rfl, rfl⟩ | ⟨-, hm⟩
    · exact h.ended hend
    · exact hx.ended k m hm hend

theorem openLoop (hx : Manned x) (kind : Kind) : Manned (x.openLoop kind) := by
  have hlength : (x.openLoop kind).loops.length = x.loops.length + 1 := by
    simp [Instance.openLoop, Instance.note]
  refine ⟨hx.tied, ?_, ?_, ?_, ?_⟩
  · intro i hi
    rw [hlength]
    exact Nat.lt_succ_of_lt (hx.placed i hi)
  · intro i hi
    obtain ⟨hlast, m, hm, ha⟩ := hx.current i hi
    refine ⟨hlast, m, ?_, ha⟩
    rw [loop?_openLoop, if_neg (Nat.ne_of_lt (hx.lt_of_getLast? hlast)), hm]
  · intro i m hm hb
    rcases openLoop_cases hm with ⟨rfl, rfl⟩ | hm
    · exact ⟨fun hmem => Nat.lt_irrefl _ (hx.placed _ hmem), rfl⟩
    · exact hx.building i m hm hb
  · intro i m hm hend
    rcases openLoop_cases hm with ⟨rfl, rfl⟩ | hm
    · rfl
    · exact hx.ended i m hm hend

theorem submitTo (hx : Manned x) (i : Nat) (t : Task) : Manned (x.submitTo i t).2 := by
  rw [submitTo_eq]
  split
  · exact hx
  · next l hl =>
    split
    · next ha => exact { hx.setLoop hl (.push ha t) with }
    · exact hx

/-- A session begins. -/
theorem openSession (hx : Manned x) (hl : x.loop? i = some l) (hb : l.phase = .building)
    (ticker : Option Ticker) : Manned (x.openSession i l ticker) := by
  have hnew : (x.openSession i l ticker).loop? i =
      some { l with phase := .idle, ticker := ticker } := by
    have hset := loop?_setLoop hl { l with phase := .idle, ticker := ticker } i
    rwa [if_pos rfl] at hset
  have hopen := (hx.building i l hl hb).2
  refine ⟨rfl, ?_, ?_, ?_, ?_⟩
  · intro k hk
    have hlength : (x.openSession i l ticker).loops.length = x.loops.length := List.length_set
    rw [hlength]
    rcases List.mem_append.1 hk with hk | hk
    · exact hx.placed k hk
    · rw [List.mem_singleton.1 hk]
      exact (List.getElem?_eq_some_iff.1 hl).1
  · intro k hk
    obtain rfl : i = k := Option.some.inj hk
    refine ⟨List.getLast?_concat, _, hnew, ?_⟩
    simp [Loop.accepts, hopen, Phase.isAlive]
  · intro k m hm hb'
    rcases setLoop_cases hl hm with ⟨rfl, rfl⟩ | ⟨hik, hm⟩
    · cases hb'
    · obtain ⟨hmem, hc⟩ := hx.building k m hm hb'
      refine ⟨fun hk => ?_, hc⟩
      rcases List.mem_append.1 hk with hk | hk
      · exact hmem hk
      · exact hik (List.mem_singleton.1 hk).symm
  · intro k m hm hend
    rcases setLoop_cases hl hm with ⟨rfl, rfl⟩ | ⟨-, hm⟩
    · cases hend
    · exact hx.ended k m hm hend

theorem giveUp (hx : Manned x) (hi : x.owned = some i) :
    Manned ((x.endSession i).closeLoop i) := by
  obtain ⟨hlast, l, hl, -⟩ := hx.current i (hx.tied ▸ hi)
  have hnone (k : Nat) : (x.endSession i).dispatcher ≠ some k := (Option.some_ne_none k).symm
  have hend : Manned (x.endSession i) :=
    { hx with tied := rfl, current := fun k hk => absurd hk (hnone k) }
  have hl' : (x.endSession i).loop? i = some l := hl
  have hb : l.phase ≠ .building := fun hb => hx.ne_of_building hl hb hlast
  simp only [Instance.closeLoop, hl']
  exact hend.setLoop hl' (.close hend hl' (hnone i) hb)

end Manned

theorem Beat.manned {p : Call → Bool} {x y : Instance} (h : Beat p x y) (hx : Manned x)
    (hkept : Kept x) (hsound : ∀ i l, y.loop? i = some l → l.phase ≠ .crashed) : Manned y := by
  cases h with
  | note _ | tell _ | aside _ _ _ _ _ _ _ _ | attempt | request _ _ _ | confirm _ =>
    exact { hx with }
  | @touch i l hl phase v ticker hphase =>
    exact hx.setLoop hl (.touch hphase v ticker (hx.ended i l hl))
  | openLoop k => exact hx.openLoop k
  | @refuse i l hl hb =>
    exact hx.setLoop hl
      (.finish rfl fun hi => absurd hi (hx.dispatcher_ne_of_building hl hb))
  | begin _ _ hl hb ticker => exact hx.openSession hl hb ticker
  | submit _ => exact hx.submitTo _ _
  | @hide i h _ _ =>
    have hflip : Manned (x.setFlag h) := { hx with }
    exact hflip.submitTo i _
  | giveUp hi => exact hx.giveUp hi
  | @take i l t rest hl hidle _ _ =>
    exact { hx.setLoop hl (.busy hidle rest l.view) with }
  | takeFlag hl hidle _ v => exact { hx.setLoop hl (.busy hidle _ v) with }
  | @stop i l rest hl hidle hq =>
    have hclosed : l.accepts = false := by
      have := ((hkept.book i l hl).stop hidle hq).stopped rfl
      simp [Loop.accepts, show l.closed = true from this.1]
    rw [endLoop_eq hl]
    exact { hx.setLoop hl (.finish rfl fun _ => hclosed) with }
  | @crash i l hl _ => exact absurd rfl (hsound i _ (loop?_endLoop hl .crashed))

/-! ## what waits -/

/-- The flags that wait on the loop of the latest session. -/
def waits (x : Instance) : List Bool :=
  ((x.sessions.getLast?.bind x.loop?).map flagsLeft).getD []

/-- The flags wait on the loop of the latest session alone, and the journal tells
of all others. -/
structure Shown (x : Instance) : Prop where
  elsewhere : ∀ i l, x.loop? i = some l → x.sessions.getLast? ≠ some i → flagsLeft l = []
  candid : Candid x.hidden x.journal x.waits

theorem flagsLeft_push {l : Loop} (ha : l.accepts) (t : Task) :
    flagsLeft (l.push t) = flagsLeft l ++ (flag? (.run t)).toList := by
  unfold flagsLeft
  rw [Loop.push_queue, if_pos ha, List.filterMap_append]
  cases h : flag? (.run t) <;> simp [h]

theorem flagsLeft_close (l : Loop) : flagsLeft l.close = flagsLeft l := by
  unfold flagsLeft
  rw [Loop.close_queue]
  split
  · rw [List.filterMap_append]
    simp [flag?]
  · rfl

theorem flag?_of_ne {t : Task} (ht : ∀ h, t ≠ .visibility h) : flag? (.run t) = none := by
  cases t with
  | visibility h => exact absurd rfl (ht h)
  | _ => rfl

/-- The flags that are left are those accepted and not run. -/
theorem Book.flags {j : List Entry} {l : Loop} {halted : Bool} (hb : Book j l halted [])
    (ha : l.phase.isAlive) :
    flagsOf (accepted l.engine j) = flagsOf (executed l.engine j) ++ flagsLeft l := by
  obtain ⟨ts, hts, hq⟩ := hb.waiting ha
  have hleft : flagsLeft l = flagsOf ts := by
    unfold flagsLeft flagsOf
    rw [hq, List.filterMap_append, List.filterMap_map]
    cases halted <;> simp [flag?, Function.comp_def]
  rw [hts, List.append_nil, flagsOf_append, hleft]

section

variable {x : Instance} {i : Nat} {l l' : Loop}

theorem waits_eq (hl : x.loop? i = some l) (hlast : x.sessions.getLast? = some i) :
    x.waits = flagsLeft l := by
  simp [waits, hlast, hl]

theorem waits_setLoop (hl : x.loop? i = some l) (hlast : x.sessions.getLast? = some i) :
    (x.setLoop i l').waits = flagsLeft l' :=
  waits_eq (by rw [loop?_setLoop hl, if_pos rfl]) hlast

theorem waits_setLoop_of_same (hl : x.loop? i = some l) (h : flagsLeft l' = flagsLeft l) :
    (x.setLoop i l').waits = x.waits := by
  by_cases hlast : x.sessions.getLast? = some i
  · rw [waits_setLoop hl hlast, h, waits_eq hl hlast]
  · have hsessions : (x.setLoop i l').sessions = x.sessions := rfl
    unfold waits
    rw [hsessions]
    cases hk : x.sessions.getLast? with
    | none => rfl
    | some k =>
      have hik : i ≠ k := fun hik => hlast (hik ▸ hk)
      simp only [Option.bind_some, loop?_setLoop hl, if_neg hik]

theorem waits_of_clear (h : ∀ i l, x.loop? i = some l → flagsLeft l = []) : x.waits = [] := by
  unfold waits
  cases hl : x.sessions.getLast?.bind x.loop? with
  | none => rfl
  | some l =>
    obtain ⟨i, -, hi⟩ := Option.bind_eq_some_iff.1 hl
    exact h i l hi

end

namespace Shown

variable {x : Instance} {i : Nat} {l l' : Loop}

theorem fresh (s : BrowserSettings) : Shown (ofSettings s) where
  elsewhere i l hl := by simp [ofSettings, loop?] at hl
  candid := .fresh

/-- An entry that is about no flag. -/
theorem note {e : Entry} (hx : Shown x) (hflip : e.flip? = none) (htold : e.flagTold? = none) :
    Shown (x.note e) where
  elsewhere := hx.elsewhere
  candid := hx.candid.note hflip htold

/-- A loop changes and keeps its flags. -/
theorem setLoop (hx : Shown x) (hl : x.loop? i = some l) (h : flagsLeft l' = flagsLeft l) :
    Shown (x.setLoop i l') where
  elsewhere k m hm hlast := by
    rcases setLoop_cases hl hm with ⟨rfl, rfl⟩ | ⟨-, hm⟩
    · exact h.trans (hx.elsewhere i l hl hlast)
    · exact hx.elsewhere k m hm hlast
  candid := by
    rw [waits_setLoop_of_same hl h]
    exact hx.candid

/-- The loop of the latest session changes, and what it says of its flags is
right. -/
theorem setLatest (hx : Shown x) (hl : x.loop? i = some l) (l' : Loop)
    (hlast : x.sessions.getLast? = some i) {h : Bool} {j : List Entry}
    (hj : Candid h j (flagsLeft l')) :
    Shown { x.setLoop i l' with hidden := h, journal := j } where
  elsewhere k m hm hne := by
    rcases setLoop_cases hl hm with ⟨rfl, rfl⟩ | ⟨-, hm⟩
    · exact absurd hlast hne
    · exact hx.elsewhere k m hm hne
  candid := by
    have hwaits : { x.setLoop i l' with hidden := h, journal := j }.waits = flagsLeft l' :=
      waits_setLoop hl hlast
    rw [hwaits]
    exact hj

theorem openLoop (hx : Shown x) (hm : Manned x) (kind : Kind) : Shown (x.openLoop kind) where
  elsewhere i m hl hlast := by
    rcases openLoop_cases hl with ⟨-, rfl⟩ | hl
    · rfl
    · exact hx.elsewhere i m hl hlast
  candid := by
    have hsessions : (x.openLoop kind).sessions = x.sessions := rfl
    have hwaits : (x.openLoop kind).waits = x.waits := by
      unfold waits
      rw [hsessions]
      cases hlast : x.sessions.getLast? with
      | none => rfl
      | some i =>
        have hold := Nat.ne_of_lt (hm.lt_of_getLast? hlast)
        simp only [Option.bind_some, loop?_openLoop, if_neg hold]
    rw [hwaits]
    exact hx.candid.note rfl rfl

theorem submitTo (hx : Shown x) (i : Nat) {t : Task} (ht : ∀ h, t ≠ .visibility h) :
    Shown (x.submitTo i t).2 := by
  rw [submitTo_eq]
  split
  · exact hx
  · next l hl =>
    split
    · next ha =>
      have hflags : flagsLeft (l.push t) = flagsLeft l := by
        rw [flagsLeft_push ha, flag?_of_ne ht, Option.toList_none, List.append_nil]
      exact (hx.setLoop hl hflags).note rfl rfl
    · exact hx

theorem closeLoop (hx : Shown x) (i : Nat) : Shown (x.closeLoop i) := by
  unfold Instance.closeLoop
  split
  · exact hx
  · next l hl => exact hx.setLoop hl (flagsLeft_close l)

/-- A session begins when no flag is left on any loop. -/
theorem openSession (hx : Shown x) (hm : Manned x) (hkept : Kept x) (hl : x.loop? i = some l)
    (hclear : ∀ e, flagsOf (accepted e x.journal) = flagsOf (executed e x.journal))
    (ticker : Option Ticker) : Shown (x.openSession i l ticker) := by
  have hnone (k : Nat) (m : Loop) (hk : x.loop? k = some m) : flagsLeft m = [] := by
    cases halive : m.phase.isAlive with
    | false => rw [flagsLeft, hm.ended k m hk halive, List.filterMap_nil]
    | true =>
      have hflags := (hkept.book k m hk).flags halive
      rw [hclear] at hflags
      exact List.append_cancel_left (hflags.symm.trans (List.append_nil _).symm)
  have hnone' (k : Nat) (m : Loop) (hk : (x.openSession i l ticker).loop? k = some m) :
      flagsLeft m = [] := by
    rcases setLoop_cases hl hk with ⟨rfl, rfl⟩ | ⟨-, hk⟩
    · exact hnone i l hl
    · exact hnone k m hk
  refine ⟨fun k m hk _ => hnone' k m hk, ?_⟩
  have hcandid := hx.candid
  rw [waits_of_clear hnone] at hcandid
  rw [waits_of_clear hnone']
  exact hcandid.note rfl rfl

/-- A flag is set, and the task to show it is queued. -/
theorem hide (hx : Shown x) (hm : Manned x) (hi : x.dispatcher = some i) {h : Bool}
    (hh : x.hidden ≠ h) :
    Shown ((x.setFlag h).submitTo i (.visibility h)).2 := by
  obtain ⟨hlast, l, hl, ha⟩ := hm.current i hi
  have hl' : (x.setFlag h).loop? i = some l := hl
  have hleft : flagsLeft (l.push (.visibility h)) = flagsLeft l ++ [h] := flagsLeft_push ha _
  have hcandid := hx.candid.flip hh
  rw [waits_eq hl hlast, ← hleft] at hcandid
  rw [submitTo_of_accepts hl' ha]
  exact hx.setLatest hl _ hlast (hcandid.note (e := .queued l.engine (.visibility h)) rfl rfl)

/-- A flag is shown and told of. -/
theorem takeFlag (hx : Shown x) (hl : x.loop? i = some l) {h : Bool} {rest : List Message}
    (hq : l.queue = .run (.visibility h) :: rest) (v : View) :
    Shown ((x.takeFlag i l h rest v).announce (.hidden h)) := by
  have hleft : flagsLeft l = h :: rest.filterMap flag? := by
    unfold flagsLeft
    rw [hq]
    rfl
  have hlast : x.sessions.getLast? = some i := by
    by_contra hne
    rw [hx.elsewhere i l hl hne] at hleft
    cases hleft
  have hcandid := hx.candid
  rw [waits_eq hl hlast, hleft] at hcandid
  have htaken := ((hcandid.note (e := .ran l.engine (.visibility h)) rfl rfl).note
    (e := .viewed l.engine v) rfl rfl).tell x.tellings
  exact { hx.setLatest hl { l with phase := .busy, queue := rest, view := v } hlast htaken with }

end Shown

/-! ## beats -/

section

variable {x y : Instance}

/-- What a beat does to the flags, unless a session begins over some that are
left, or a task fails. -/
theorem Beat.shown (h : Beat Call.tellsNoFlag x y) (hx : Shown x) (hm : Manned x)
    (hkept : Kept x) (hclear : ClearStarts y.journal)
    (hsound : ∀ i l, y.loop? i = some l → l.phase ≠ .crashed) : Shown y := by
  cases h with
  | @note e he => refine hx.note ?_ ?_ <;> cases e <;> first | rfl | cases he
  | @tell n hn =>
    have hblank : (Entry.telling x.tellings n).flagTold? = none := by
      cases n with
      | hidden h => exact absurd (hn h rfl) (by simp [Call.tellsNoFlag])
      | _ => rfl
    exact { hx.note (e := .telling x.tellings n) rfl hblank with }
  | aside _ _ _ _ _ _ _ _ | attempt | confirm _ => exact { hx with }
  | touch hl _ _ _ _ => exact hx.setLoop hl rfl
  | openLoop k => exact hx.openLoop hm k
  | refuse hl hb =>
    refine hx.setLoop hl ?_
    rw [hx.elsewhere _ _ hl (hm.ne_of_building hl hb)]
    rfl
  | begin _ _ hl _ ticker => exact hx.openSession hm hkept hl hclear.1 ticker
  | @request _ c t m _ _ _ => exact { hx.note (e := .requested c t.next) rfl rfl with }
  | submit ht => exact hx.submitTo _ ht
  | hide hi hh => exact hx.hide hm hi hh
  | @giveUp i _ =>
    have hend : Shown (x.endSession i) := { hx.note (e := .ended (x.engineOf i)) rfl rfl with }
    exact hend.closeLoop i
  | @take i l t rest hl hidle hq ht =>
    refine (hx.setLoop hl ?_).note rfl rfl
    unfold flagsLeft
    rw [hq, List.filterMap_cons, flag?_of_ne ht]
  | takeFlag hl _ hq v => exact hx.takeFlag hl hq v
  | @stop i l rest hl hidle hq =>
    rw [endLoop_eq hl]
    refine (hx.setLoop hl ?_).note rfl rfl
    -- what was accepted has been run
    obtain ⟨-, hall, -⟩ := ((hkept.book i l hl).stop hidle hq).stopped rfl
    have hflags := (hkept.book i l hl).flags (by rw [hidle]; rfl)
    simp only [Loop.finish, accepted, executed, List.append_nil] at hall
    rw [hall] at hflags
    exact (List.append_cancel_left ((List.append_nil _).trans hflags))
  | @crash i l hl _ => exact absurd rfl (hsound i _ (loop?_endLoop hl .crashed))

/-- A loop that failed has failed for good. -/
theorem Continues.sound (h : Continues x y) (hy : ∀ i l, y.loop? i = some l → l.phase ≠ .crashed) :
    ∀ i l, x.loop? i = some l → l.phase ≠ .crashed := by
  intro i l hl hcrashed
  obtain ⟨l', hl', hgo, -⟩ := h i l hl
  exact hy i l' hl' ((hgo.ended (by rw [hcrashed]; rfl)).trans hcrashed)

theorem Beats.shown (h : Beats Call.tellsNoFlag x y) (hx : Shown x) (hm : Manned x)
    (hkept : Kept x) (hclear : ClearStarts y.journal)
    (hsound : ∀ i l, y.loop? i = some l → l.phase ≠ .crashed) : Shown y ∧ Manned y := by
  induction h with
  | refl => exact ⟨hx, hm⟩
  | tail hfirst hlast ih =>
    have hkept' := (Beats.kept hfirst hkept).1
    obtain ⟨hx', hm'⟩ :=
      ih (hclear.of_suffix hlast.journal) ((hlast.kept hkept').2.sound hsound)
    exact ⟨hlast.shown hx' hm' hkept' hclear hsound, hlast.manned hm' hkept' hsound⟩

end

/-! ## all runs -/

/-- What a call to hide or show does: nothing, or the flag flips and the task to
show it is queued; the states stay in either case. -/
theorem call_hide {x : Instance} (hm : Manned x) (h : Bool) :
    let y := (call (.hide h) x).2
    y.machine = x.machine ∧
      if x.dispatcher = none ∨ x.hidden = h then y = x
      else y.hidden = h ∧ flips y.journal = flips x.journal ++ [h] ∧
        ∃ i l, x.dispatcher = some i ∧ x.loop? i = some l ∧
          accepted l.engine y.journal = accepted l.engine x.journal ++ [.visibility h] := by
  intro y
  have hy : y = x.hide h := by
    obtain ⟨answer, hcall⟩ := call_eq (.hide h) x
    simp only [y, hcall, performWith]
  rw [hy]
  unfold Instance.hide
  by_cases hnone : x.dispatcher = none ∨ x.hidden = h
  · have hskip : x.dispatcher.isNone || x.hidden == h := by simpa using hnone
    rw [if_pos hskip, if_pos hnone]
    exact ⟨rfl, rfl⟩
  · have hflip : ¬(x.dispatcher.isNone || x.hidden == h) := by simpa using hnone
    rw [if_neg hflip, if_neg hnone]
    obtain ⟨i, hi⟩ := Option.ne_none_iff_exists'.1 (not_or.1 hnone).1
    obtain ⟨-, l, hl, ha⟩ := hm.current i hi
    have hd : ({ x with hidden := h }.note (.flipped h)).dispatcher = some i := hi
    have hl' : ({ x with hidden := h }.note (.flipped h)).loop? i = some l := hl
    simp only [submit, hd, submitTo_of_accepts hl' ha]
    refine ⟨rfl, rfl, ?_, i, l, hi, hl, ?_⟩
    · simp [note, setLoop, flips_cons, Entry.flip?]
    · simp [note, setLoop, accepted]

/-- In every run in which no loop fails and no session begins while visibility
tasks are left: what observers are told of the flag, in all sessions together and
at every moment, are the first of the flips in order, which go on and off in turn;
a call that is no flip changes nothing, and none changes a state; and once
nothing is queued all flips were told and the last is the flag. -/
theorem flags_told_in_order (s : BrowserSettings) (ts : List Turn)
    (hts : ∀ t ∈ ts, t.every Call.tellsNoFlag)
    (hsound : ∀ l ∈ ((ofSettings s).play ts).loops, l.phase ≠ .crashed)
    (hclear : ClearStarts ((ofSettings s).play ts).journal) :
    let x := (ofSettings s).play ts
    (∀ j, j <:+ x.journal → flagsTold j <+: flips j ∧ flips j = blink (flips j).length) ∧
      (flips x.journal).getLast?.getD false = x.hidden ∧
      (∀ h, let y := (call (.hide h) x).2
        y.machine = x.machine ∧
          if x.dispatcher = none ∨ x.hidden = h then y = x
          else y.hidden = h ∧ flips y.journal = flips x.journal ++ [h] ∧
            ∃ i l, x.dispatcher = some i ∧ x.loop? i = some l ∧
              accepted l.engine y.journal = accepted l.engine x.journal ++ [.visibility h]) ∧
      ((∀ l ∈ x.loops, l.queue = []) →
        flagsTold x.journal = flips x.journal ∧
          (flagsTold x.journal).getLast?.getD false = x.hidden) := by
  intro x
  have hbeats : Beats Call.tellsNoFlag (ofSettings s) x := play_beats hts (obeys_ofSettings _ s)
  obtain ⟨hshown, hmanned⟩ := hbeats.shown (.fresh s) (.fresh s) (kept_ofSettings s) hclear
    fun i l hl => hsound l (List.mem_of_getElem? hl)
  have hcandid := hshown.candid
  refine ⟨fun j hj => hcandid.moment hj, hcandid.hidden, call_hide hmanned, fun hempty => ?_⟩
  have hnone : x.waits = [] := waits_of_clear fun i l hl => by
    rw [flagsLeft, hempty l (List.mem_of_getElem? hl), List.filterMap_nil]
  have htold : flagsTold x.journal = flips x.journal := by
    rw [hcandid.waiting, hnone, List.append_nil]
  exact ⟨htold, by rw [htold, hcandid.hidden]⟩

/-- The flag flips ahead of the loop, the session ends while flags are left, and
the flag goes on from where it was in the next session. -/
def curtains : List Turn :=
  [.call (.start {}), .call (.hide true), .message 0, .call (.hide false), .call (.hide false),
    .call (.hide true), .call .shutdown, .call (.hide false), .call (.start {}),
    .call (.hide false), .message 1, .message 1, .message 1]

theorem flags_told_in_order_curtains :
    let x := (ofSettings ({} : Settings).browser).play curtains
    flagsTold x.journal = [true, false, true, false] ∧ flagsTold x.journal = flips x.journal ∧
      (flagsTold x.journal).getLast?.getD false = x.hidden := by
  intro x
  have hrun := flags_told_in_order ({} : Settings).browser curtains (by decide) (by decide)
    (by decide)
  exact ⟨by decide, hrun.2.2.2 (by decide)⟩

end BrowserHost.Instance
