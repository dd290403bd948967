import BrowserHost.Health.Watch
import Mathlib.Data.List.Nodup
import Mathlib.Data.Nat.Find
import Mathlib.Tactic.Common

/-!
# BrowserHost.Proofs.Descent

What the walk below a root lists, for any table whatever: parent links may go
in circles, lead nowhere, or come with pids that repeat.

* `Linked`, `IsDistance`: how many parent links lead from the root to a pid, and
  the fewest that do;
* `Walks`: the walk as a loop that runs until its queue is empty, with no bound
  on its steps;
* `walks_descendants`: the loop comes to its end, and the steps that the walk is
  given are enough for that;
* `Walks.breadth`: pids are listed in the order in which their parents were;
* `snapshot_lists_tree`: the listing of an observed root, and the figures
  drawn from it.
-/

namespace BrowserHost.Health

/-! ## links -/

/-- The table lists a process `child` whose parent is `parent`. -/
def IsChild (table : List ProcessInfo) (parent child : UInt32) : Prop :=
  ∃ r ∈ table, r.parent = some parent ∧ r.pid = child

/-- `n` parent links lead from `root` to a pid. -/
inductive Linked (table : List ProcessInfo) (root : UInt32) : Nat → UInt32 → Prop
  | root : Linked table root 0 root
  | child {n : Nat} {pid child : UInt32} :
    Linked table root n pid → IsChild table pid child → Linked table root (n + 1) child

/-- `n` is the fewest parent links that lead from `root` to a pid. -/
def IsDistance (table : List ProcessInfo) (root pid : UInt32) (n : Nat) : Prop :=
  Linked table root n pid ∧ ∀ m, Linked table root m pid → n ≤ m

section

variable {table : List ProcessInfo} {root pid child : UInt32} {n : Nat}

theorem Reachable.linked (h : Reachable table root pid) : ∃ n, Linked table root n pid := by
  induction h with
  | child hr hp => exact ⟨1, .child .root ⟨_, hr, hp, rfl⟩⟩
  | step _ hr hp ih =>
    obtain ⟨n, hn⟩ := ih
    exact ⟨n + 1, hn.child ⟨_, hr, hp, rfl⟩⟩

theorem Reachable.of_isChild (h : pid = root ∨ Reachable table root pid)
    (hc : IsChild table pid child) : Reachable table root child := by
  obtain ⟨r, hr, hp, rfl⟩ := hc
  rcases h with rfl | h
  · exact .child hr hp
  · exact .step h hr hp

/-- Where links lead, there is a least number of them. -/
theorem Linked.exists_distance (h : Linked table root n pid) :
    ∃ m, IsDistance table root pid m ∧ m ≤ n := by
  classical
  have hex : ∃ n, Linked table root n pid := ⟨n, h⟩
  exact ⟨Nat.find hex, ⟨Nat.find_spec hex, fun _ hm => Nat.find_min' hex hm⟩, Nat.find_min' hex h⟩

end

/-! ## the children met at one step -/

section

variable {table : List ProcessInfo} {pid child : UInt32} {seen : List UInt32}

/-- No child is passed over, unless its pid was met before. -/
theorem mem_freshChildren_of_isChild (h : IsChild table pid child) (hs : child ∉ seen) :
    child ∈ (freshChildren pid seen table).map (·.pid) := by
  induction table generalizing seen with
  | nil => simp [IsChild] at h
  | cons t ts ih =>
    obtain ⟨r, hr, hp, rfl⟩ := h
    unfold freshChildren
    rcases List.mem_cons.1 hr with rfl | hr
    · simp [hp, hs]
    · split
      · by_cases heq : r.pid = t.pid
        · simp [heq]
        · exact List.mem_cons_of_mem _ (ih ⟨r, hr, hp, rfl⟩ (by simp [heq, hs]))
      · exact ih ⟨r, hr, hp, rfl⟩ hs

/-- Records whose pids are new are used up as they are met. -/
theorem length_freshChildren_add (pid : UInt32) (seen : List UInt32) (table : List ProcessInfo) :
    (freshChildren pid seen table).length +
        table.countP (fun r => r.pid ∉ (freshChildren pid seen table).map (·.pid) ++ seen) ≤
      table.countP (fun r => r.pid ∉ seen) := by
  induction table generalizing seen with
  | nil => simp [freshChildren]
  | cons t ts ih =>
    unfold freshChildren
    split
    · next ht =>
      -- fewer pids are new after `t` than before it
      have hfewer : ts.countP (fun r => r.pid ∉ t.pid :: seen) ≤
          ts.countP (fun r => r.pid ∉ seen) := List.countP_mono_left (by simp)
      have hrest := ih (t.pid :: seen)
      simp only [List.map_cons, List.cons_append, List.length_cons, List.countP_cons]
      simp only [List.mem_cons, List.mem_append, not_or, true_or, not_true_eq_false, decide_false,
        Bool.false_eq_true, if_false, ht.2, not_false_eq_true, decide_true, if_true]
        at hrest hfewer ⊢
      have hsame : ts.countP (fun r => decide (¬r.pid = t.pid ∧
            r.pid ∉ (freshChildren pid (t.pid :: seen) ts).map (·.pid) ∧ r.pid ∉ seen)) =
          ts.countP (fun r => decide (r.pid ∉ (freshChildren pid (t.pid :: seen) ts).map (·.pid) ∧
            ¬r.pid = t.pid ∧ r.pid ∉ seen)) :=
        List.countP_congr (by simp; tauto)
      omega
    · have hrest := ih seen
      simp only [List.countP_cons]
      have hhead : (if decide (t.pid ∉ (freshChildren pid seen ts).map (·.pid) ++ seen) = true
            then 1 else 0) ≤ if decide (t.pid ∉ seen) = true then 1 else 0 := by
        split
        · next h => simp_all
        · omega
      omega

end

/-! ## the loop -/

/-- The loop that visits the pids of a queue, oldest first, until none is left:
from the pids seen and the queue, the records that it emits. -/
inductive Walks (table : List ProcessInfo) :
    List UInt32 → List UInt32 → List ProcessInfo → Prop
  | done {seen : List UInt32} : Walks table seen [] []
  | visit {seen queue : List UInt32} {pid : UInt32} {rest : List ProcessInfo} :
    Walks table ((freshChildren pid seen table).map (·.pid) ++ seen)
      (queue ++ (freshChildren pid seen table).map (·.pid)) rest →
    Walks table seen (pid :: queue) (freshChildren pid seen table ++ rest)

/-- As many steps as there are pids queued and records with new pids are enough
for the loop to come to its end. -/
theorem walks_walk (table : List ProcessInfo) {steps : Nat} {seen queue : List UInt32}
    (h : queue.length + table.countP (fun r => r.pid ∉ seen) ≤ steps) :
    Walks table seen queue (walk table steps seen queue) := by
  induction steps generalizing seen queue with
  | zero =>
    obtain rfl : queue = [] := List.length_eq_zero_iff.1 (by omega)
    exact .done
  | succ steps ih =>
    cases queue with
    | nil => exact .done
    | cons pid queue =>
      have hused := length_freshChildren_add pid seen table
      refine .visit (ih ?_)
      simp only [List.length_cons, List.length_append, List.length_map] at h ⊢
      omega

theorem walks_descendants (table : List ProcessInfo) (root : UInt32) :
    Walks table [root] [root] (descendants table root) := by
  refine walks_walk table ?_
  have hle := table.countP_le_length (p := fun r => decide (r.pid ∉ [root]))
  simp only [List.length_singleton]
  omega

namespace Walks

variable {table : List ProcessInfo} {seen queue : List UInt32} {out : List ProcessInfo}

/-- What is emitted is listed, and was not met before. -/
theorem mem_table (h : Walks table seen queue out) {r : ProcessInfo} (hr : r ∈ out) :
    r ∈ table ∧ r.pid ∉ seen := by
  induction h with
  | done => simp at hr
  | visit _ ih =>
    rcases List.mem_append.1 hr with hr | hr
    · exact ⟨(mem_table_of_mem_freshChildren hr).1, pid_not_mem_of_mem_freshChildren hr⟩
    · obtain ⟨hmem, hnot⟩ := ih hr
      exact ⟨hmem, fun hs => hnot (List.mem_append_right _ hs)⟩

/-- No pid is emitted twice. -/
theorem nodup (h : Walks table seen queue out) : (out.map (·.pid)).Nodup := by
  induction h with
  | done => simp
  | visit hrest ih =>
    rw [List.map_append]
    refine (freshChildren_nodup _ _ _).append ih fun pid hkid hlater => ?_
    obtain ⟨r, hr, rfl⟩ := List.mem_map.1 hlater
    exact (hrest.mem_table hr).2 (List.mem_append_left _ hkid)

/-- The parent of what is emitted was queued, or emitted earlier. -/
theorem parent (h : Walks table seen queue out) {before after : List ProcessInfo}
    {r : ProcessInfo} (hout : out = before ++ r :: after) :
    ∃ u, r.parent = some u ∧ (u ∈ queue ∨ u ∈ before.map (·.pid)) := by
  induction h generalizing before with
  | done => simp at hout
  | @visit seen queue pid rest _ ih =>
    rcases List.append_eq_append_iff.1 hout with ⟨mid, rfl, hrest⟩ | ⟨mid, hkids, hmid⟩
    · -- `r` comes from a later step
      obtain ⟨u, hu, hq⟩ := ih hrest
      refine ⟨u, hu, ?_⟩
      simp only [List.mem_append, List.map_append, List.mem_cons] at hq ⊢
      tauto
    · cases mid with
      | nil =>
        have hfirst : rest = [] ++ r :: after := by simpa using hmid.symm
        obtain ⟨u, hu, hq⟩ := ih hfirst
        refine ⟨u, hu, ?_⟩
        simp only [List.mem_append, List.map_nil, List.not_mem_nil, or_false, List.append_nil]
          at hq hkids
        rw [hkids] at hq
        simp only [List.mem_cons]
        tauto
      | cons s mid =>
        obtain ⟨rfl, -⟩ := List.cons.inj hmid
        have hkid : r ∈ freshChildren pid seen table := by simp [hkids]
        exact ⟨pid, (mem_table_of_mem_freshChildren hkid).2, .inl List.mem_cons_self⟩

/-- The children of all that is visited have been met in the end. -/
theorem closed (h : Walks table seen queue out) {u child : UInt32}
    (hu : u ∈ queue ++ out.map (·.pid)) (hc : IsChild table u child) :
    child ∈ seen ∨ child ∈ out.map (·.pid) := by
  induction h with
  | done => simp at hu
  | @visit seen queue pid rest _ ih =>
    simp only [List.map_append, List.mem_append, List.mem_cons, List.cons_append] at hu ih ⊢
    by_cases hpid : u = pid
    · by_cases hs : child ∈ seen
      · exact .inl hs
      · exact .inr (.inl (mem_freshChildren_of_isChild (hpid ▸ hc) hs))
    · have hcase := ih (by tauto)
      tauto

/-- Pids are emitted in the order in which their parents are visited: if a pid is
a child of `u`, all pids emitted before it are children of `u` or of pids that
are visited before `u`. -/
theorem breadth (h : Walks table seen queue out) {u child earlier : UInt32}
    (hu : u ∈ queue ++ out.map (·.pid)) (hc : IsChild table u child)
    (hchild : child ∈ out.map (·.pid)) (he : earlier ∈ out.map (·.pid))
    (hle : (out.map (·.pid)).idxOf earlier ≤ (out.map (·.pid)).idxOf child) :
    ∃ t ∈ queue ++ out.map (·.pid), (queue ++ out.map (·.pid)).idxOf t ≤
      (queue ++ out.map (·.pid)).idxOf u ∧ IsChild table t earlier := by
  have hnew {r : ProcessInfo} := h.mem_table (r := r)
  induction h with
  | done => simp at he
  | @visit seen queue pid rest hrest ih =>
    have hkid (c : UInt32) (hm : c ∈ (freshChildren pid seen table).map (·.pid)) :
        IsChild table pid c := by
      obtain ⟨r, hr, rfl⟩ := List.mem_map.1 hm
      obtain ⟨hmem, hp⟩ := mem_table_of_mem_freshChildren hr
      exact ⟨r, hmem, hp, rfl⟩
    have hfound (hp : IsChild table pid child) :
        child ∈ (freshChildren pid seen table).map (·.pid) := by
      refine mem_freshChildren_of_isChild hp ?_
      obtain ⟨r, hr, rfl⟩ := List.mem_map.1 hchild
      exact (hnew hr).2
    generalize hk : (freshChildren pid seen table).map (·.pid) = kids at *
    simp only [List.map_append, hk, List.cons_append, ← List.append_assoc] at *
    by_cases hearly : earlier ∈ kids
    · exact ⟨pid, List.mem_cons_self, by simp, hkid _ hearly⟩
    · -- then the child comes from a later step, too
      have hlate : child ∉ kids := by
        intro hm
        have hlt := List.idxOf_lt_length_of_mem hm
        rw [List.idxOf_append_of_mem hm, List.idxOf_append_of_notMem hearly] at hle
        omega
      have hpid : u ≠ pid := by
        rintro rfl
        exact hlate (hfound hc)
      rw [List.idxOf_append_of_notMem hearly, List.idxOf_append_of_notMem hlate] at hle
      have hu' : u ∈ queue ++ kids ++ rest.map (·.pid) := List.mem_of_ne_of_mem hpid hu
      obtain ⟨t, ht, hbefore, hlink⟩ := ih hu'
        ((List.mem_append.1 hchild).resolve_left hlate) ((List.mem_append.1 he).resolve_left hearly)
        (by omega) hrest.mem_table
      refine ⟨t, List.mem_cons_of_mem _ ht, ?_, hlink⟩
      rw [List.idxOf_cons_ne _ hpid.symm]
      have hcons : (pid :: (queue ++ kids ++ rest.map (·.pid))).idxOf t ≤
          (queue ++ kids ++ rest.map (·.pid)).idxOf t + 1 := by
        by_cases htp : t = pid
        · rw [htp, List.idxOf_cons_self]
          omega
        · rw [List.idxOf_cons_ne _ (Ne.symm htp)]
      omega

end Walks

/-! ## the walk below a root -/

theorem eq_head_of_idxOf_le_zero {a head : UInt32} {l : List UInt32}
    (h : (head :: l).idxOf a ≤ 0) : a = head := by
  by_contra hne
  rw [List.idxOf_cons_ne _ (Ne.symm hne)] at h
  omega

namespace Walks

variable {table : List ProcessInfo} {root : UInt32} {below : List ProcessInfo}

/-- All that links lead to is listed. -/
theorem complete (h : Walks table [root] [root] below) {n : Nat} {pid : UInt32}
    (hn : Linked table root n pid) : pid ∈ root :: below.map (·.pid) := by
  induction hn with
  | root => exact List.mem_cons_self
  | child _ hc ih =>
    rcases h.closed ih hc with hs | hm
    · exact List.mem_singleton.1 hs ▸ List.mem_cons_self
    · exact List.mem_cons_of_mem _ hm

/-- Parent links lead to all that is listed. -/
theorem sound (h : Walks table [root] [root] below) {before after : List ProcessInfo}
    {r : ProcessInfo} (hb : below = before ++ r :: after) : Reachable table root r.pid := by
  induction hlen : before.length using Nat.strong_induction_on generalizing before r after with
  | _ n ih =>
    obtain ⟨u, hu, hq⟩ := h.parent hb
    have hr : r ∈ table := (h.mem_table (by simp [hb])).1
    refine .of_isChild ?_ ⟨r, hr, hu, rfl⟩
    rcases hq with hq | hq
    · exact .inl (List.mem_singleton.1 hq)
    · obtain ⟨s, hs, rfl⟩ := List.mem_map.1 hq
      obtain ⟨l₁, l₂, rfl⟩ := List.append_of_mem hs
      exact .inr (ih l₁.length (by simp [← hlen]) (by simpa using hb) rfl)

/-- Whatever links lead to a pid, no more are needed to a pid listed before it. -/
theorem linked_of_le (h : Walks table [root] [root] below) {n : Nat} {pid earlier : UInt32}
    (hn : Linked table root n pid) (he : earlier ∈ root :: below.map (·.pid))
    (hle : (root :: below.map (·.pid)).idxOf earlier ≤ (root :: below.map (·.pid)).idxOf pid) :
    ∃ m ≤ n, Linked table root m earlier := by
  induction hn generalizing earlier with
  | root => exact ⟨0, Nat.le_refl _, eq_head_of_idxOf_le_zero (by simpa using hle) ▸ .root⟩
  | @child n u child hlink hc ih =>
    by_cases hroot : earlier = root
    · exact ⟨0, Nat.zero_le _, hroot ▸ .root⟩
    · have hchild : child ≠ root := by
        rintro rfl
        exact hroot (eq_head_of_idxOf_le_zero (by simpa using hle))
      rw [List.idxOf_cons_ne _ (Ne.symm hroot), List.idxOf_cons_ne _ hchild.symm] at hle
      obtain ⟨t, ht, hbefore, hearlier⟩ := h.breadth (h.complete hlink) hc
        (List.mem_of_ne_of_mem hchild (h.complete (hlink.child hc)))
        (List.mem_of_ne_of_mem hroot he) (by omega)
      obtain ⟨m, hm, hlinked⟩ := ih ht hbefore
      exact ⟨m + 1, by omega, hlinked.child hearlier⟩

end Walks

/-! ## the listing -/

/-- `below` lists the processes below `root`, each pid that links lead to once,
after its parent and nearest first. -/
structure Lists (table : List ProcessInfo) (root : UInt32) (below : List ProcessInfo) : Prop where
  mem_table : ∀ r ∈ below, r ∈ table
  nodup : (below.map (·.pid)).Nodup
  mem_pid : ∀ pid, pid ∈ below.map (·.pid) ↔ pid ≠ root ∧ Reachable table root pid
  parent : ∀ before r after, below = before ++ r :: after →
    ∃ u, r.parent = some u ∧ (u = root ∨ u ∈ before.map (·.pid))
  nearest : below.Pairwise fun r s =>
    ∃ m n, IsDistance table root r.pid m ∧ IsDistance table root s.pid n ∧ m ≤ n

theorem Walks.nearest {table : List ProcessInfo} {root : UInt32} {below : List ProcessInfo}
    (h : Walks table [root] [root] below) {i j : Nat} (hij : i < j) (hj : j < below.length) :
    ∃ m n, IsDistance table root below[i].pid m ∧ IsDistance table root below[j].pid n ∧
      m ≤ n := by
  -- places in the listing, the root at the first
  have hplace (k : Nat) (hk : k < below.length) :
      (root :: below.map (·.pid)).idxOf below[k].pid = k + 1 := by
    have hne : root ≠ below[k].pid := fun heq =>
      (h.mem_table (List.getElem_mem hk)).2 (by simp [← heq])
    have hk' : k < (below.map (·.pid)).length := by simpa using hk
    have hget : (below.map (·.pid))[k] = below[k].pid := by simp
    rw [List.idxOf_cons_ne _ hne, ← hget, h.nodup.idxOf_getElem]
  have hmem (k : Nat) (hk : k < below.length) : below[k].pid ∈ root :: below.map (·.pid) :=
    List.mem_cons_of_mem _ (List.mem_map_of_mem (List.getElem_mem hk))
  have hreach : Reachable table root below[j].pid := by
    obtain ⟨l₁, l₂, hl⟩ := List.append_of_mem (List.getElem_mem hj)
    exact h.sound hl
  obtain ⟨k, hk⟩ := hreach.linked
  obtain ⟨n, hn, -⟩ := hk.exists_distance
  obtain ⟨k, hkn, hk⟩ := h.linked_of_le hn.1 (hmem i (by omega))
    (by rw [hplace i (by omega), hplace j hj]; omega)
  obtain ⟨m, hm, hmk⟩ := hk.exists_distance
  exact ⟨m, n, hm, hn, Nat.le_trans hmk hkn⟩

theorem Walks.lists {table : List ProcessInfo} {root : UInt32} {below : List ProcessInfo}
    (h : Walks table [root] [root] below) : Lists table root below where
  mem_table _ hr := (h.mem_table hr).1
  nodup := h.nodup
  mem_pid pid := by
    constructor
    · intro hm
      obtain ⟨r, hr, rfl⟩ := List.mem_map.1 hm
      obtain ⟨l₁, l₂, hl⟩ := List.append_of_mem hr
      exact ⟨fun heq => (h.mem_table hr).2 (List.mem_singleton.2 heq), h.sound hl⟩
    · rintro ⟨hne, hreach⟩
      obtain ⟨n, hn⟩ := hreach.linked
      exact List.mem_of_ne_of_mem hne (h.complete hn)
  parent before r after hb := by
    obtain ⟨u, hu, hq⟩ := h.parent hb
    exact ⟨u, hu, by simpa using hq⟩
  nearest := List.pairwise_iff_getElem.2 fun _ _ _ hj hij => h.nearest hij hj

theorem lists_descendants (table : List ProcessInfo) (root : UInt32) :
    Lists table root (descendants table root) :=
  (walks_descendants table root).lists

/-! ## what an observed tree amounts to -/

/-- A figure summed over several processes. -/
def total (figure : ProcessInfo → UInt64) (rs : List ProcessInfo) : Nat :=
  (rs.map fun r => (figure r).toNat).foldr (· + ·) 0

theorem ProcessTree.sum_eq_total (t : ProcessTree) (figure : ProcessInfo → UInt64) :
    t.sum figure = total figure t.toList := by
  unfold ProcessTree.sum total
  induction t.toList with
  | nil => rfl
  | cons r rs ih => simp only [List.foldr_cons, List.map_cons, ih]

/-- A root that has ended is listed and not counted. -/
theorem ProcessTree.count_add (t : ProcessTree) :
    t.count + (if t.root.any (!·.active) then 1 else 0) = t.toList.length := by
  unfold ProcessTree.count ProcessTree.toList ProcessTree.rootActive
  cases t.root with
  | none => simp
  | some r =>
    cases hr : r.active with
    | false => simp [hr]
    | true => simp [hr, Nat.add_comm]

/-- While a sum fits 64 bits, adding up in 64 bits gives the same. -/
theorem toNat_foldl_add (figure : ProcessInfo → UInt64) {rs : List ProcessInfo} (start : UInt64)
    (h : start.toNat + total figure rs < UInt64.size) :
    ((rs.map figure).foldl (· + ·) start).toNat = start.toNat + total figure rs := by
  induction rs generalizing start with
  | nil => simp [total]
  | cons r rs ih =>
    have hcons : total figure (r :: rs) = (figure r).toNat + total figure rs := rfl
    rw [hcons] at h ⊢
    have hadd : (start + figure r).toNat = start.toNat + (figure r).toNat := by
      rw [UInt64.toNat_add]
      exact Nat.mod_eq_of_lt (Nat.lt_of_le_of_lt (by omega) h)
    rw [List.map_cons, List.foldl_cons, ih _ (by omega), hadd, Nat.add_assoc]

theorem Watch.tree?_of_root? {w : Watch} {root : UInt32} (h : w.monitor.root? = some root) :
    w.monitor.tree? w.table = some (.ofTable w.table root) := by
  obtain ⟨g, hg, rfl⟩ := Option.map_eq_some_iff.1 h
  simp [Monitor.tree?, hg]

/-- Whatever the table: building the tree of an observed root comes to an end.
It lists the first record of the root, if there is one, and then what is below
it: one record for each pid that parent links lead to, after its parent and in
order of distance.  The memory figures are the sums over just this listing, and
the number of processes is its length, not counting a root that has ended. -/
theorem snapshot_lists_tree (w : Watch) {root : UInt32} (h : w.monitor.root? = some root) :
    ∃ below : List ProcessInfo, Walks w.table [root] [root] below ∧ Lists w.table root below ∧
      w.snapshot = (w.table.find? (·.pid == root)).toList ++ below ∧
      w.metrics.resident = total (·.resident) w.snapshot ∧
      w.metrics.allocated = total (·.allocated) w.snapshot ∧
      w.metrics.shared = total (·.shared) w.snapshot ∧
      (∀ figure : ProcessInfo → UInt64, total figure w.snapshot < UInt64.size →
        ((w.snapshot.map figure).foldl (· + ·) 0).toNat = total figure w.snapshot) ∧
      w.metrics.processes + (if (w.table.find? (·.pid == root)).any (!·.active) then 1 else 0) =
        w.snapshot.length := by
  have htree := Watch.tree?_of_root? h
  have hsnapshot : w.snapshot = (ProcessTree.ofTable w.table root).toList := by
    simp only [Watch.snapshot, Monitor.snapshot, htree, Option.elim_some]
  have hfigure (figure : ProcessInfo → UInt64) :
      w.monitor.figure w.table figure = total figure w.snapshot := by
    rw [hsnapshot]
    simp only [Monitor.figure, htree, Option.elim_some, ProcessTree.sum_eq_total]
  have hcount : w.metrics.processes = (ProcessTree.ofTable w.table root).count := by
    simp only [Watch.metrics, Monitor.processes, htree, Option.elim_some]
  refine ⟨descendants w.table root, walks_descendants w.table root, lists_descendants w.table root,
    hsnapshot, hfigure _, hfigure _, hfigure _, fun figure hfits => ?_, ?_⟩
  · simpa using toNat_foldl_add figure 0 (by simpa using hfits)
  · rw [hcount, hsnapshot]
    exact (ProcessTree.ofTable w.table root).count_add

/-- Links that go in a circle, a process that is its own parent, one whose parent
is gone, and pids that repeat. -/
def tangled : List ProcessInfo :=
  [⟨12, some 11, "c", 4, 4, 4, true⟩, ⟨10, some 12, "a", 1, 1, 1, false⟩,
    ⟨11, some 10, "b", 2, 2, 2, true⟩, ⟨13, some 13, "self", 8, 8, 8, true⟩,
    ⟨14, some 99, "stray", 16, 16, 16, true⟩, ⟨10, none, "late", 32, 32, 32, true⟩,
    ⟨15, some 12, "d", 64, 64, 64, true⟩, ⟨15, some 10, "e", 128, 128, 128, false⟩]

theorem snapshot_lists_tree_tangled :
    let w := (({ monitor := { mandatory := .empty }, table := tangled } : Watch).step
      (.observe 10)).2
    w.monitor.root? = some 10 ∧
      (∃ below, Walks tangled [10] [10] below ∧ Lists tangled 10 below ∧
        w.snapshot = ⟨10, some 12, "a", 1, 1, 1, false⟩ :: below) ∧
      w.snapshot.map (·.name) = ["a", "b", "e", "c"] ∧
      ((w.snapshot.map ProcessInfo.resident).foldl (· + ·) 0).toNat = 135 ∧
      w.metrics.processes = 3 := by
  intro w
  obtain ⟨below, hwalks, hlists, hsnapshot, -, -, -, hfits, hcount⟩ :=
    snapshot_lists_tree w (show w.monitor.root? = some 10 from rfl)
  have hsum : total ProcessInfo.resident w.snapshot = 135 := by decide
  have hended : (w.table.find? (·.pid == 10)).any (!·.active) = true := by decide
  have hlength : w.snapshot.length = 4 := by decide
  rw [if_pos hended, hlength] at hcount
  exact ⟨rfl, ⟨below, hwalks, hlists, hsnapshot⟩, by decide,
    (hfits ProcessInfo.resident (by rw [hsum]; decide)).trans hsum, Nat.succ.inj hcount⟩

end BrowserHost.Health
