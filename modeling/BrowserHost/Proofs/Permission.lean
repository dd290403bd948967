import BrowserHost.Proofs.Keeping

/-!
# BrowserHost.Proofs.Permission

Who may read the settings once they are saved.  The directory is restricted to its
owner on every save.  The file is created for its owner alone, but one that was there
keeps the permission bits that it had.

* `save_eq_superuser`: whoever saves, if that succeeds, leaves the same behind;
* `save_eq_of_ok`: all that a save that succeeds leaves behind;
* `modes_of_save`: the permission bits of the directory and the file;
* `not_private_heirloom`: a file that everybody could read stays readable.
-/

namespace BrowserHost.Home

/-! ## what a save leaves behind -/

theorem prepared_eq_superuser {h h' : Home} {u : User} (hp : h.prepared u = .ok h') :
    h.prepared = .ok h' := by
  cases h with
  | notDirectory | absent => exact hp
  | directory m p =>
    unfold prepared at hp ⊢
    simp only at hp
    split at hp
    · exact hp
    · cases hp

theorem write_eq_superuser {h h' : Home} {path : String} {content : ByteArray} {u : User}
    (hw : h.write path content u = .ok h') : h.write path content = .ok h' := by
  match h with
  | .absent | .notDirectory | .directory _ .absent | .directory _ .directory => exact hw
  | .directory m (.file f) =>
    unfold write at hw ⊢
    simp only at hw
    split at hw
    · exact hw
    · cases hw

/-- Permission bits can make a save fail.  If they do not they make no difference. -/
theorem save_eq_superuser {h : Home} {path : String} {s : Settings} {u : User}
    (hsaved : (h.save path s u).1 = .ok ()) : h.save path s u = h.save path s := by
  unfold save at hsaved ⊢
  cases hp : h.prepared u with
  | error e =>
    rw [hp] at hsaved
    cases hsaved
  | ok h' =>
    rw [prepared_eq_superuser hp]
    rw [hp] at hsaved
    simp only [replaced] at hsaved ⊢
    cases hb : bytes s with
    | error e =>
      rw [hb] at hsaved
      cases hsaved
    | ok content =>
      rw [hb] at hsaved
      change (h'.after (h'.write path content u)).1 = .ok () at hsaved
      change h'.after (h'.write path content u) = h'.after (h'.write path content)
      cases hw : h'.write path content u with
      | error e =>
        rw [hw] at hsaved
        cases hsaved
      | ok left => rw [write_eq_superuser hw]

/-- A save that succeeds leaves the bytes of the settings, in a directory of its
owner's and in a file that is new or has the permission bits that it had. -/
theorem save_eq_of_ok {h : Home} {path : String} {s : Settings} {u : User}
    (hsaved : (h.save path s u).1 = .ok ()) :
    ∃ content, bytes s = .ok content ∧ (h.save path s u).2 =
      .directory privateDirectory (.file ⟨h.fileMode?.getD privateFile, content⟩) := by
  have hsame := save_eq_superuser hsaved
  rw [hsame] at hsaved ⊢
  cases htext : s.toText? with
  | none =>
    obtain ⟨e, h', hfails⟩ := save_of_none htext h path
    rw [hfails] at hsaved
    cases hsaved
  | some text =>
    refine ⟨_, bytes_of_text htext, ?_⟩
    cases h with
    | notDirectory => cases hsaved
    | absent =>
      rw [save_of_prepared (h := .absent) rfl (replaced_of_text htext _ _)]
      rfl
    | directory m p =>
      rw [save_of_prepared (h := .directory m p) rfl (replaced_of_text htext _ _)] at hsaved ⊢
      cases p with
      | directory => cases hsaved
      | absent | file f => rfl

/-! ## permission bits -/

/-- Permission bits that give nobody but the owner anything. -/
def IsPrivate (mode : ℕ) : Prop :=
  mode &&& 0o077 = 0

instance (mode : ℕ) : Decidable (IsPrivate mode) :=
  inferInstanceAs (Decidable (_ = _))

/-- After a save that succeeds, whoever saves, the directory is its owner's alone,
whatever was there before.  The file has the permission bits that it had, and those of a
file that only its owner may use if it is new.  So it has the latter exactly if there was
no file or it had them already, and others may use it exactly if they could before. -/
theorem modes_of_save (h : Home) (path : String) (s : Settings) (u : User)
    (hsaved : (h.save path s u).1 = .ok ()) :
    (h.save path s u).2.directoryMode? = some 0o700 ∧
      ∃ mode, (h.save path s u).2.fileMode? = some mode ∧
        (h.settings = .absent → mode = 0o600) ∧
        (∀ m, h.fileMode? = some m → mode = m) ∧
        (mode = 0o600 ↔ ∀ m, h.fileMode? = some m → m = 0o600) ∧
        (IsPrivate mode ↔ ∀ m, h.fileMode? = some m → IsPrivate m) := by
  obtain ⟨content, -, hleft⟩ := save_eq_of_ok hsaved
  rw [hleft]
  refine ⟨rfl, h.fileMode?.getD 0o600, rfl, fun habsent => ?_, fun m hm => ?_, ?_, ?_⟩
  · have hnew : h.fileMode? = none := by rw [fileMode?, habsent]
    rw [hnew]
    rfl
  · rw [hm]
    rfl
  all_goals
    cases h.fileMode? with
    | none => exact iff_of_true (by decide) nofun
    | some m => simp

/-- Everybody may read the settings, and look into their directory. -/
def heirloom : Home :=
  .directory 0o755 (.file ⟨0o644, "".toUTF8⟩)

theorem save_heirloom (path : String) : (heirloom.save path {}).1 = .ok () := by
  have hwritable := (Settings.isSome_toText?_iff {}).2 (by decide)
  obtain ⟨text, htext⟩ := Option.isSome_iff_exists.1 hwritable
  obtain ⟨hwrong, -⟩ | ⟨-, m, m', hsave⟩ := save_of_text htext heirloom path
  · exact absurd hwrong (by decide)
  · rw [hsave]

theorem modes_of_save_heirloom :
    let left := heirloom.save "config.toml" {}
    left.1 = .ok () ∧ left.2.directoryMode? = some 0o700 ∧ left.2.fileMode? = some 0o644 := by
  have hsaved := save_heirloom "config.toml"
  obtain ⟨hdirectory, mode, hmode, -, hkept, -⟩ :=
    modes_of_save heirloom "config.toml" {} .superuser hsaved
  exact ⟨hsaved, hdirectory, hkept 0o644 rfl ▸ hmode⟩

/-- A save that succeeds does not restrict a file that everybody may read. -/
theorem not_private_heirloom :
    let left := heirloom.save "config.toml" {}
    left.1 = .ok () ∧ left.2.fileMode? ≠ some 0o600 ∧
      ¬∀ mode, left.2.fileMode? = some mode → IsPrivate mode := by
  obtain ⟨content, -, hleft⟩ := save_eq_of_ok (save_heirloom "config.toml")
  intro left
  have hmode : left.2.fileMode? = some 0o644 := congrArg fileMode? hleft
  refine ⟨save_heirloom _, by rw [hmode]; decide, fun hprivate => ?_⟩
  exact absurd (hprivate _ hmode) (by decide)

end BrowserHost.Home
