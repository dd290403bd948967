import BrowserHost.Fault

/-!
# BrowserHost.Hub.Registry

Observers in the order of their registration, none of them twice.

* `mem_register`, `mem_unregister`: who is in the registry afterwards;
* `register_isOk_iff`, `unregister_isOk_iff`: when the two succeed.
-/

namespace BrowserHost.Hub

/-! ## observers -/

/-- An observer: one with a name, or one of the nameless that ignore all they
hear. -/
inductive ObserverId
  | named (name : String)
  | quiet (number : Nat)
  deriving DecidableEq, Repr

/-! ## registries -/

/-- The observers registered, in order. -/
structure Registry where
  members : List ObserverId := []
  deriving DecidableEq, Repr

namespace Registry

/-- Add an observer at the end, unless it is there already. -/
def register (r : Registry) (o : ObserverId) : Except Fault Registry :=
  if o ∈ r.members then .error .observerAlreadyRegistered else .ok ⟨r.members ++ [o]⟩

/-- Remove an observer, if it is there. -/
def unregister (r : Registry) (o : ObserverId) : Except Fault Registry :=
  if o ∈ r.members then .ok ⟨r.members.erase o⟩ else .error .observerNotRegistered

/-- The number of observers. -/
def count (r : Registry) : Nat :=
  r.members.length

theorem mem_register {r r' : Registry} {o p : ObserverId} (h : r.register o = .ok r') :
    p ∈ r'.members ↔ p ∈ r.members ∨ p = o := by
  unfold register at h
  split at h <;> simp_all
  subst h
  simp

theorem mem_unregister {r r' : Registry} {o p : ObserverId} (hr : r.members.Nodup)
    (h : r.unregister o = .ok r') : p ∈ r'.members ↔ p ∈ r.members ∧ p ≠ o := by
  unfold unregister at h
  split at h <;> simp_all
  subst h
  simp [hr.mem_erase_iff, and_comm]

theorem register_isOk_iff {r : Registry} {o : ObserverId} :
    (∃ r', r.register o = .ok r') ↔ o ∉ r.members := by
  unfold register
  split <;> simp_all

theorem unregister_isOk_iff {r : Registry} {o : ObserverId} :
    (∃ r', r.unregister o = .ok r') ↔ o ∈ r.members := by
  unfold unregister
  split <;> simp_all

theorem register_nodup {r r' : Registry} {o : ObserverId} (hr : r.members.Nodup)
    (h : r.register o = .ok r') : r'.members.Nodup := by
  unfold register at h
  split at h <;> simp_all
  subst h
  grind

theorem unregister_nodup {r r' : Registry} {o : ObserverId} (hr : r.members.Nodup)
    (h : r.unregister o = .ok r') : r'.members.Nodup := by
  unfold unregister at h
  split at h <;> simp_all
  subst h
  exact hr.erase o

end Registry

end BrowserHost.Hub
