import BrowserHost.Toml.Document
import Mathlib.Data.List.Nodup

/-!
# BrowserHost.Proofs.Repetition

No key of a document repeats.  A statement changes the root only by putting something
under a key, in place of what the key stood for or at the end.

* `Table.KeysDiffer.put`: the one change that all others are made of;
* `Table.KeysDiffer.update`: a change at the end of a path;
* `nodup_document?`: the keys that are read from a document.
-/

namespace BrowserHost.Toml

namespace Table

theorem map_fst_replace (key : String) (node : Node) (es : List (String × Node)) :
    (replace key node es).map Prod.fst =
      if key ∈ es.map Prod.fst then es.map Prod.fst else es.map Prod.fst ++ [key] := by
  induction es with
  | nil => simp [replace]
  | cons e es ih =>
    by_cases he : e.1 = key
    · simp [replace, he]
    · by_cases hmem : key ∈ es.map Prod.fst <;> simp_all [replace, eq_comm]

/-- No key of the table repeats. -/
def KeysDiffer (t : Table) : Prop :=
  (t.entries.map Prod.fst).Nodup

namespace KeysDiffer

variable {t u : Table}

theorem put (h : t.KeysDiffer) (key : String) (node : Node) : (t.put key node).KeysDiffer := by
  have hkeys : (t.put key node).entries.map Prod.fst = _ := map_fst_replace key node t.entries
  rw [KeysDiffer, hkeys]
  split
  · exact h
  · next hnew =>
    have hne (k : String) (hk : k ∈ t.entries.map Prod.fst) : k ≠ key := by
      rintro rfl
      exact hnew hk
    exact List.nodup_append.2 ⟨h, by simp, by simpa using hne⟩

/-- A change at the end of a path puts one table under the first part of the path, so only
a change of the table itself has to be looked at. -/
theorem update {isDotted : Bool} {f : Table → Option Table} {path : List String}
    (h : t.KeysDiffer) (hf : ∀ v, f t = some v → v.KeysDiffer)
    (hu : t.update isDotted f path = some u) : u.KeysDiffer := by
  cases path with
  | nil => exact hf u hu
  | cons k ks =>
    unfold Table.update at hu
    split at hu
    · obtain ⟨v, -, rfl⟩ := Option.map_eq_some_iff.1 hu
      exact h.put k _
    · cases hu
    · split at hu
      · cases hu
      · obtain ⟨v, -, rfl⟩ := Option.map_eq_some_iff.1 hu
        exact h.put k _
    · obtain ⟨v, -, rfl⟩ := Option.map_eq_some_iff.1 hu
      exact h.put k _

theorem addEntry {path : List String} {key : String} {v : Value} (h : t.KeysDiffer)
    (hu : t.addEntry path key v = some u) : u.KeysDiffer := by
  refine h.update (fun w hw => ?_) hu
  split at hw
  · cases hw
  · split at hw
    · cases hw
    · exact Option.some.inj hw ▸ h.put key _

theorem define {key : String} (h : t.KeysDiffer) (hu : t.define key = some u) :
    u.KeysDiffer := by
  unfold Table.define at hu
  split at hu
  · exact Option.some.inj hu ▸ h.put key _
  · split at hu
    · exact Option.some.inj hu ▸ h.put key _
    · cases hu
  · cases hu

theorem append {key : String} (h : t.KeysDiffer) (hu : t.append key = some u) :
    u.KeysDiffer := by
  unfold Table.append at hu
  split at hu
  · exact Option.some.inj hu ▸ h.put key _
  · exact Option.some.inj hu ▸ h.put key _
  · cases hu

end KeysDiffer

theorem map_fst_entriesToValues (es : List (String × Node)) :
    (entriesToValues es).map Prod.fst = es.map Prod.fst := by
  induction es with
  | nil => rfl
  | cons e es ih => simp [entriesToValues, ih]

end Table

/-- A statement adds no key twice to the root. -/
theorem keysDiffer_add? {d d' : Draft} {s : Statement} (h : d.root.KeysDiffer)
    (hd : d.add? s = some d') : d'.root.KeysDiffer := by
  cases s with
  | table path key =>
    obtain ⟨root, hroot, hd⟩ := Option.bind_eq_some_iff.1 hd
    obtain rfl := Option.some.inj hd
    exact h.update (fun _ => h.define) hroot
  | element path key =>
    obtain ⟨root, hroot, hd⟩ := Option.bind_eq_some_iff.1 hd
    obtain rfl := Option.some.inj hd
    exact h.update (fun _ => h.append) hroot
  | entry path key v =>
    obtain ⟨root, hroot, hd⟩ := Option.bind_eq_some_iff.1 hd
    obtain rfl := Option.some.inj hd
    exact h.update (fun _ => h.addEntry) hroot

theorem keysDiffer_foldlM {ss : List Statement} {d d' : Draft} (h : d.root.KeysDiffer)
    (hd : ss.foldlM Draft.add? d = some d') : d'.root.KeysDiffer := by
  induction ss generalizing d with
  | nil => exact Option.some.inj hd ▸ h
  | cons s ss ih =>
    rw [List.foldlM_cons] at hd
    obtain ⟨e, he, hd⟩ := Option.bind_eq_some_iff.1 hd
    exact ih (keysDiffer_add? h he) hd

/-- No key of a document repeats. -/
theorem nodup_document? {text : List Char} {es : List (String × Value)}
    (h : document? text = some es) : (es.map Prod.fst).Nodup := by
  obtain ⟨ss, -, h⟩ := Option.bind_eq_some_iff.1 h
  obtain ⟨d, hd, h⟩ := Option.bind_eq_some_iff.1 h
  obtain rfl := Option.some.inj h
  have hempty : ({} : Draft).root.KeysDiffer := by
    simp [Table.KeysDiffer, Table.empty, Table.entries]
  have hroot := keysDiffer_foldlM hempty hd
  obtain ⟨⟨_, _, es⟩, _⟩ := d
  rw [Table.toEntries, Table.map_fst_entriesToValues]
  exact hroot

end BrowserHost.Toml
