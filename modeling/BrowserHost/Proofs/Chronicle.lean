import BrowserHost.Instance.Basic
import Mathlib.Data.List.Chain

/-!
# BrowserHost.Proofs.Chronicle

What the journal says about the latest session: which engine it runs on, what
its state should become and in which order, what observers were told about it,
and what is still queued.  All of it is read off the journal alone, newest
entry first, so it means the same whether the entries came in one piece or in
many.

* `agenda`, `told`: the states that a session has to go through, and those
  that observers heard of;
* `left`: the lifecycle tasks that a loop has accepted and not run;
* `FreshStarts`, `Loyal`, `Steady`: no session began over the tasks of another,
  and no task of another session changed the state, ever or lately;
* `agree_of_quiet`: only loud entries matter.
-/

namespace BrowserHost.Instance

open Engine

/-! ## loud entries -/

/-- Whether an entry says something about sessions, tasks or states. -/
def Entry.isLoud : Entry → Bool
  | .requested .. | .began .. | .ended _ | .queued .. | .ran .. | .dropped _ => true
  | .telling _ (.stateChanged _) => true
  | _ => false

/-! ## the latest session -/

/-- Whether a session is running. -/
def isRunning : List Entry → Bool
  | [] => false
  | .began .. :: _ => true
  | .ended _ :: _ => false
  | _ :: j => isRunning j

/-- The engine of the latest session. -/
def latest : List Entry → Option Nat
  | [] => none
  | .began e _ :: _ => some e
  | _ :: j => latest j

/-- The states that the latest session has to go through: the one it began
with, and then those of the requests accepted while it was running. -/
def agenda : List Entry → List State
  | [] => []
  | .began _ s :: _ => [s]
  | .requested _ s :: j => if isRunning j then agenda j ++ [s] else agenda j
  | _ :: j => agenda j

/-- The states that observers were told since the latest session began. -/
def told : List Entry → List State
  | [] => []
  | .began .. :: _ => []
  | .telling _ (.stateChanged s) :: j => told j ++ [s]
  | _ :: j => told j

/-- The state that was last applied since the latest session began. -/
def effective : List Entry → State
  | [] => .uninitialized
  | .began .. :: _ => .uninitialized
  | .ran _ (.lifecycle s) :: _ => s
  | _ :: j => effective j

/-- Whether the latest session has run a lifecycle task. -/
def isDriven : List Entry → Bool
  | [] => false
  | .began .. :: _ => false
  | .ran e (.lifecycle _) :: j => latest j == some e || isDriven j
  | _ :: j => isDriven j

/-! ## tasks that are left -/

/-- The lifecycle tasks that the loop of engine `e` has accepted and not run,
oldest first. -/
def left (e : Nat) : List Entry → List State
  | [] => []
  | .queued d (.lifecycle s) :: j => if d = e then left e j ++ [s] else left e j
  | .ran d (.lifecycle _) :: j => if d = e then (left e j).tail else left e j
  | .dropped d :: j => if d = e then [] else left e j
  | _ :: j => left e j

/-- Whenever a session began, no lifecycle task was left on any loop. -/
def FreshStarts : List Entry → Prop
  | [] => True
  | .began .. :: j => (∀ e, left e j = []) ∧ FreshStarts j
  | _ :: j => FreshStarts j

/-- Every lifecycle task was run by the latest session, or changed nothing. -/
def Loyal : List Entry → Prop
  | [] => True
  | .ran e (.lifecycle s) :: j => (latest j = some e ∨ effective j = s) ∧ Loyal j
  | _ :: j => Loyal j

/-- The same of the time since the latest session began. -/
def Steady : List Entry → Prop
  | [] => True
  | .began .. :: _ => True
  | .ran e (.lifecycle s) :: j => (latest j = some e ∨ effective j = s) ∧ Steady j
  | _ :: j => Steady j

/-! ## deciding -/

/-- The engines that lifecycle tasks were queued for. -/
def busyEngines (j : List Entry) : List Nat :=
  j.filterMap fun
    | .queued e (.lifecycle _) => some e
    | _ => none

theorem left_eq_nil_of_not_mem {e : Nat} {j : List Entry} (h : e ∉ busyEngines j) :
    left e j = [] := by
  induction j with
  | nil => rfl
  | cons d j ih =>
    cases d with
    | queued d t =>
      cases t with
      | lifecycle s =>
        have hcons : busyEngines (.queued d (.lifecycle s) :: j) = d :: busyEngines j := rfl
        rw [hcons, List.mem_cons, not_or] at h
        simp only [left]
        rw [if_neg (fun hde => h.1 hde.symm)]
        exact ih h.2
      | _ => exact ih h
    | ran d t =>
      cases t with
      | lifecycle s =>
        have hrest : left e j = [] := ih h
        simp only [left, hrest, List.tail_nil, ite_self]
      | _ => exact ih h
    | dropped d =>
      have hrest : left e j = [] := ih h
      simp only [left, hrest, ite_self]
    | _ => exact ih h

instance (j : List Entry) : Decidable (∀ e, left e j = []) :=
  decidable_of_iff (∀ e ∈ busyEngines j, left e j = []) <| by
    constructor
    · intro h e
      by_cases he : e ∈ busyEngines j
      · exact h e he
      · exact left_eq_nil_of_not_mem he
    · exact fun h e _ => h e

instance : DecidablePred FreshStarts := fun j => go j
where
  go : (j : List Entry) → Decidable (FreshStarts j)
    | [] => .isTrue trivial
    | .began .. :: j => @instDecidableAnd _ _ inferInstance (go j)
    | .requested .. :: j | .ended _ :: j | .navigated _ :: j | .flipped _ :: j | .frame _ :: j
    | .queued .. :: j | .ran .. :: j | .created .. :: j | .submitted .. :: j | .loaded .. :: j
    | .viewed .. :: j | .dropped _ :: j | .telling .. :: j | .heard .. :: j | .answered .. :: j
    | .told .. :: j => go j

/-! ## quiet entries do not matter -/

section

variable {e : Entry} {j k : List Entry}

/-- The two journals say the same. -/
structure Agree (j k : List Entry) : Prop where
  isRunning : isRunning j = isRunning k
  latest : latest j = latest k
  agenda : agenda j = agenda k
  told : told j = told k
  effective : effective j = effective k
  isDriven : isDriven j = isDriven k
  left : ∀ e, left e j = left e k
  fresh : FreshStarts j ↔ FreshStarts k
  loyal : Loyal j ↔ Loyal k
  steady : Steady j ↔ Steady k

theorem Agree.refl (j : List Entry) : Agree j j := by
  constructor <;> simp

theorem Agree.trans {l : List Entry} (h : Agree j k) (h' : Agree k l) : Agree j l where
  isRunning := h.isRunning.trans h'.isRunning
  latest := h.latest.trans h'.latest
  agenda := h.agenda.trans h'.agenda
  told := h.told.trans h'.told
  effective := h.effective.trans h'.effective
  isDriven := h.isDriven.trans h'.isDriven
  left e := (h.left e).trans (h'.left e)
  fresh := h.fresh.trans h'.fresh
  loyal := h.loyal.trans h'.loyal
  steady := h.steady.trans h'.steady

/-- A quiet entry says nothing. -/
theorem agree_of_quiet (h : e.isLoud = false) (j : List Entry) : Agree (e :: j) j := by
  cases e with
  | telling k n =>
    cases n with
    | stateChanged s => simp [Entry.isLoud] at h
    | _ => constructor <;> intros <;> rfl
  | requested _ _ | began _ _ | ended _ | queued _ _ | ran _ _ | dropped _ =>
    simp [Entry.isLoud] at h
  | _ => constructor <;> intros <;> rfl

/-! ## earlier moments -/

theorem FreshStarts.of_cons (h : FreshStarts (e :: j)) : FreshStarts j := by
  cases e with
  | began _ _ => exact h.2
  | _ => exact h

theorem Loyal.of_cons (h : Loyal (e :: j)) : Loyal j := by
  cases e with
  | ran d t =>
    cases t with
    | lifecycle s => exact h.2
    | _ => exact h
  | _ => exact h

theorem Loyal.steady (h : Loyal j) : Steady j := by
  induction j with
  | nil => trivial
  | cons e j ih =>
    cases e with
    | began _ _ => trivial
    | ran d t =>
      cases t with
      | lifecycle s => exact ⟨h.1, ih h.2⟩
      | _ => exact ih h
    | _ => exact ih h

theorem FreshStarts.of_suffix (h : FreshStarts j) (hk : k <:+ j) : FreshStarts k := by
  obtain ⟨es, rfl⟩ := hk
  induction es with
  | nil => exact h
  | cons e es ih => exact ih h.of_cons

theorem Loyal.of_suffix (h : Loyal j) (hk : k <:+ j) : Loyal k := by
  obtain ⟨es, rfl⟩ := hk
  induction es with
  | nil => exact h
  | cons e es ih => exact ih h.of_cons

/-- There has been no session exactly if none has begun. -/
theorem latest_eq_none_iff : latest j = none ↔ ∀ e s, .began e s ∉ j := by
  induction j with
  | nil => simp [latest]
  | cons d j ih =>
    cases d with
    | began e s =>
      simp only [latest, reduceCtorEq, false_iff]
      intro h
      exact h e s List.mem_cons_self
    | _ => simp [latest, ih]

end

end BrowserHost.Instance
