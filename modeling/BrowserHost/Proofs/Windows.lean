import BrowserHost.Proofs.Narrowing

/-!
# BrowserHost.Proofs.Windows

Where the frames go.  The first one only opens a window; every later one is counted in
just one window, one that is over or the one that is open.  The frame that ends a window
opens the next, and a frame from before the opening is counted like any other.  A window
of whose milliseconds 64 bits hold nothing cannot be closed: recording ends there.

* `Counts.frame_within`, `Counts.frame_closing`, `Counts.failsAt_iff`: what one frame does
  to the window that is open;
* `Counts.run`: where the frames go that follow;
* `frames_partitioned`: where all frames go, and what the samples say of them;
* `not_rate_eon`: a window that lasts too long for 64 bits of milliseconds.
-/

namespace BrowserHost.FrameCounter

/-! ## windows -/

/-- A window that is over: when it was opened, the frames counted in it but for the last,
all of them within a second of the opening or before it, and the last, which is not. -/
structure Window where
  opened : ℕ
  inner : List ℕ
  closing : ℕ
  within : ∀ t ∈ inner, t < opened + window
  full : opened + window ≤ closing

namespace Window

/-- The frames counted in it, in the order in which they came. -/
def frames (w : Window) : List ℕ :=
  w.inner ++ [w.closing]

/-- How many they are. -/
def count (w : Window) : ℕ :=
  w.frames.length

/-- How long it lasted, in whole milliseconds. -/
def millis (w : Window) : ℕ :=
  (w.closing - w.opened) / 10 ^ 6

/-- 64 bits hold nothing of its milliseconds. -/
def IsLost (w : Window) : Prop :=
  2 ^ 64 ∣ w.millis

instance (w : Window) : Decidable w.IsLost :=
  inferInstanceAs (Decidable (_ ∣ _))

/-- The sample that it gives. -/
def sample (w : Window) : ℕ :=
  rate (min w.count Text.max32) (w.closing - w.opened)

end Window

/-- The windows lie end to end: the first is opened at one time, every other by the frame
that ended the one before it, and the last is over at another time. -/
inductive EndToEnd : ℕ → List Window → ℕ → Prop
  | nil (t : ℕ) : EndToEnd t [] t
  | cons (w : Window) {ws : List Window} {t : ℕ} (rest : EndToEnd w.closing ws t) :
    EndToEnd w.opened (w :: ws) t

/-- The numbers of the frames that end windows, if frame `k` opens the first. -/
def closings (k : ℕ) : List Window → List ℕ
  | [] => []
  | w :: ws => (k + w.count) :: closings (k + w.count) ws

/-! ## one frame -/

/-- The counter while a window is open in which these frames have been counted. -/
structure Counts (c : FrameCounter) (opened : ℕ) (inner : List ℕ) : Prop where
  windowStart : c.windowStart = some opened
  frames : c.frames = min inner.length Text.max32
  within : ∀ t ∈ inner, t < opened + window

section

variable {c : FrameCounter} {opened t : ℕ} {inner : List ℕ}

theorem counts_first (first : ℕ) : Counts (({} : FrameCounter).frame first).2 first [] where
  windowStart := rfl
  frames := rfl
  within := nofun

theorem Counts.next (h : Counts c opened inner) :
    min (c.frames + 1) Text.max32 = min (inner ++ [t]).length Text.max32 := by
  rw [h.frames, List.length_append, List.length_singleton]
  omega

/-- A frame within a second of the opening, or before it, is counted. -/
theorem Counts.frame_within (h : Counts c opened inner) (ht : t < opened + window) :
    (c.frame t).1 = none ∧ Counts (c.frame t).2 opened (inner ++ [t]) ∧
      (c.frame t).2.fps = c.fps := by
  have hpos : 0 < window := by decide
  rw [FrameCounter.frame_within h.windowStart (by omega)]
  refine ⟨rfl, ⟨h.windowStart, h.next, ?_⟩, rfl⟩
  simpa [or_imp, forall_and] using ⟨h.within, ht⟩

/-- Any other frame is counted too, ends the window and opens the next. -/
theorem Counts.frame_closing (h : Counts c opened inner) (ht : opened + window ≤ t) :
    let w : Window := ⟨opened, inner, t, h.within, ht⟩
    (c.frame t).1 = some w.sample ∧ Counts (c.frame t).2 t [] ∧ (c.frame t).2.fps = w.sample := by
  rw [FrameCounter.frame_closing h.windowStart (by omega), h.next]
  exact ⟨rfl, ⟨rfl, rfl, nofun⟩, rfl⟩

/-- The one frame that cannot be recorded is the one that would end a lost window. -/
theorem Counts.failsAt_iff (h : Counts c opened inner) :
    c.FailsAt t ↔
      ∃ ht : opened + window ≤ t, (⟨opened, inner, t, h.within, ht⟩ : Window).IsLost := by
  constructor
  · rintro ⟨opened', hopened, ht, hlost⟩
    obtain rfl := Option.some.inj (h.windowStart.symm.trans hopened)
    exact ⟨ht, hlost⟩
  · rintro ⟨ht, hlost⟩
    exact ⟨opened, h.windowStart, ht, hlost⟩

end

/-! ## many frames -/

/-- Where the frames go that follow, in windows that are over and in the one that is then
open.  By induction on them: a frame is added to the window that is open, which is over if
the frame is late. -/
theorem Counts.run {c : FrameCounter} {opened : ℕ} {inner : List ℕ} (h : Counts c opened inner)
    (k : ℕ) (times : List ℕ) :
    ∃ ws pending last, inner ++ times = ws.flatMap Window.frames ++ pending ∧
      EndToEnd opened ws last ∧ Counts (c.feed times) last pending ∧
      (c.samples (k + inner.length + 1) times).1 = (closings k ws).zip (ws.map Window.sample) ∧
      (c.feed times).fps = (ws.map Window.sample).getLast?.getD c.fps ∧
      (c.samples? (k + inner.length + 1) times = none ↔ ∃ w ∈ ws, w.IsLost) := by
  induction times generalizing c opened inner k with
  | nil => exact ⟨[], inner, opened, by simp, .nil opened, h, rfl, rfl, by simp [samples?]⟩
  | cons t times ih =>
    rw [samples_cons, feed]
    rcases Nat.lt_or_ge t (opened + window) with ht | ht
    · obtain ⟨hnone, hcounts, hfps⟩ := h.frame_within ht
      obtain ⟨ws, pending, last, hframes, hends, hcounts', hsamples, hfps', hlost⟩ := ih hcounts k
      have hnumber : k + inner.length + 1 + 1 = k + (inner ++ [t]).length + 1 := by
        rw [List.length_append, List.length_singleton]
        omega
      have hpasses : ¬c.FailsAt t := fun hfails => Nat.not_le.2 ht (h.failsAt_iff.1 hfails).1
      refine ⟨ws, pending, last, ?_, hends, hcounts', ?_, hfps ▸ hfps', ?_⟩
      · rw [← hframes, List.append_assoc, List.singleton_append]
      · rw [hnone, hnumber]
        exact hsamples
      · rw [samples?_cons_of_not_failsAt hpasses, Option.map_eq_none_iff, hnumber]
        exact hlost
    · obtain ⟨hsome, hcounts, hfps⟩ := h.frame_closing ht
      obtain ⟨ws, pending, last, hframes, hends, hcounts', hsamples, hfps', hlost⟩ :=
        ih hcounts (k + inner.length + 1)
      refine ⟨⟨opened, inner, t, h.within, ht⟩ :: ws, pending, last, ?_,
        .cons ⟨opened, inner, t, h.within, ht⟩ hends, hcounts', ?_, ?_, ?_⟩
      · rw [List.nil_append] at hframes
        rw [List.flatMap_cons, hframes, Window.frames, List.append_assoc, List.append_assoc,
          List.singleton_append]
      · have hcount : k + inner.length + 1 = k + (inner ++ [t]).length := by
          rw [List.length_append, List.length_singleton, Nat.add_assoc]
        rw [hsome, closings, List.map_cons, List.zip_cons_cons, Window.count, Window.frames,
          ← hcount]
        exact congrArg _ hsamples
      · rw [hfps', hfps, List.map_cons, List.getLast?_cons, Option.getD_some]
      · rw [List.exists_mem_cons_iff]
        by_cases hfails : c.FailsAt t
        · exact iff_of_true (samples?_cons_of_failsAt hfails) (.inl (h.failsAt_iff.1 hfails).2)
        · have hheld : ¬(⟨opened, inner, t, h.within, ht⟩ : Window).IsLost :=
            fun hlost => hfails (h.failsAt_iff.2 ⟨ht, hlost⟩)
          rw [samples?_cons_of_not_failsAt hfails, Option.map_eq_none_iff, or_iff_right hheld]
          exact hlost

/-! ## rates -/

/-- So many frames in so many milliseconds are `f` in a second, rounded down. -/
def IsRate (f count millis : ℕ) : Prop :=
  f * millis ≤ 1000 * count ∧ 1000 * count < (f + 1) * millis

instance (f count millis : ℕ) : Decidable (IsRate f count millis) :=
  inferInstanceAs (Decidable (_ ∧ _))

theorem isRate_iff {f count millis : ℕ} (hpos : 0 < millis) :
    IsRate f count millis ↔ f = 1000 * count / millis := by
  rw [IsRate, ← Nat.le_div_iff_mul_le hpos, ← Nat.div_lt_iff_lt_mul hpos]
  omega

theorem IsRate.le {f count millis : ℕ} (h : IsRate f count millis) (hlong : 1000 ≤ millis) :
    f ≤ count := by
  have hle : f * 1000 ≤ 1000 * count := (Nat.mul_le_mul_left f hlong).trans h.1
  omega

namespace Window

theorem sum_count (ws : List Window) :
    (ws.map Window.count).sum = (ws.flatMap Window.frames).length := by
  rw [List.length_flatMap]
  rfl

variable (w : Window)

theorem thousand_le_millis : 1000 ≤ w.millis :=
  thousand_le_div (Nat.le_sub_of_add_le' w.full)

/-- The sample is the quotient by what 64 bits keep of the milliseconds. -/
theorem sample_eq (hcount : w.count < 2 ^ 32) :
    w.sample = min (1000 * w.count / (w.millis % 2 ^ 64)) Text.max32 := by
  have hmin : min w.count Text.max32 = w.count := Nat.min_eq_left (Nat.le_sub_one_of_lt hcount)
  rw [sample, hmin, rate_eq_mod _ (Nat.le_sub_of_add_le' w.full)]
  rfl

theorem div_millis_le_max (hcount : w.count < 2 ^ 32) :
    1000 * w.count / w.millis ≤ Text.max32 :=
  (div_millis_le w.thousand_le_millis).trans (Nat.le_sub_one_of_lt hcount)

/-- It is the rate of a window whose milliseconds fit 64 bits. -/
theorem isRate_sample (hcount : w.count < 2 ^ 32) (hfits : w.millis < 2 ^ 64) :
    IsRate w.sample w.count w.millis := by
  have hlong := w.thousand_le_millis
  rw [isRate_iff (by omega), w.sample_eq hcount, Nat.mod_eq_of_lt hfits,
    Nat.min_eq_left (w.div_millis_le_max hcount)]

/-- Else the rate is zero, and the sample is so only if what 64 bits keep is long
enough. -/
theorem isRate_sample_iff (hcount : w.count < 2 ^ 32) (hpos : w.millis % 2 ^ 64 ≠ 0) :
    IsRate w.sample w.count w.millis ↔
      w.millis < 2 ^ 64 ∨ 1000 * w.count < w.millis % 2 ^ 64 := by
  have hlong := w.thousand_le_millis
  rw [isRate_iff (by omega), w.sample_eq hcount,
    ← div_mod_eq_iff (Nat.le_sub_one_of_lt hcount) hpos,
    Nat.min_eq_left (w.div_millis_le_max hcount)]

end Window

/-! ## all frames -/

/-- Any frames, at any times, from when a counter is new.  The first opens a window.  The
others are cut into the windows that are over, end to end, each ended by its first frame
that comes a second or more after its opening, and the frames of the window that is open,
which the counter keeps; so none is lost, and none is counted twice.

The samples are those of the windows that are over, at the frames that ended them, and
the last one is shown.  If 32 bits can count the frames of a window, and 64 bits hold its
milliseconds, its sample is the number of frames in a second, rounded down, and so no more
than all of them.  If 64 bits do not hold the milliseconds, but something of them, the
sample is that number just if what they hold is still long enough for it to be zero.  If
they hold nothing of the milliseconds of some window, there are no samples to record: the
division by them fails. -/
theorem frames_partitioned (first : ℕ) (later : List ℕ) :
    ∃ (ws : List Window) (pending : List ℕ) (last : ℕ) (fs : List ℕ),
      later = ws.flatMap Window.frames ++ pending ∧
      EndToEnd first ws last ∧
      (∀ t ∈ pending, t < last + window) ∧
      (ws.map Window.count).sum + pending.length = (first :: later).length - 1 ∧
      (samples {} 0 (first :: later)).1 = (closings 0 ws).zip fs ∧
      List.Forall₂ (fun w f => w.count < 2 ^ 32 →
        (w.millis < 2 ^ 64 → IsRate f w.count w.millis ∧ f ≤ w.count) ∧
        (w.millis % 2 ^ 64 ≠ 0 → (IsRate f w.count w.millis ↔
          w.millis < 2 ^ 64 ∨ 1000 * w.count < w.millis % 2 ^ 64))) ws fs ∧
      (feed {} (first :: later)).windowStart = some last ∧
      (feed {} (first :: later)).frames = min pending.length (2 ^ 32 - 1) ∧
      (feed {} (first :: later)).fps = fs.getLast?.getD 0 ∧
      samples? {} 0 (first :: later) =
        if ∃ w ∈ ws, w.IsLost then none else some (samples {} 0 (first :: later)) := by
  obtain ⟨ws, pending, last, hframes, hends, hcounts, hsamples, hfps, hlost⟩ :=
    (counts_first first).run 0 later
  refine ⟨ws, pending, last, ws.map Window.sample, hframes, hends, hcounts.within, ?_, ?_, ?_,
    hcounts.windowStart, hcounts.frames, hfps, ?_⟩
  · rw [List.nil_append] at hframes
    rw [Window.sum_count, ← List.length_append, ← hframes]
    rfl
  · rw [samples_cons]
    exact hsamples
  · rw [List.forall₂_map_right_iff]
    refine List.forall₂_same.2 fun w _ hcount => ⟨fun hfits => ?_, w.isRate_sample_iff hcount⟩
    have hrate := w.isRate_sample hcount hfits
    exact ⟨hrate, hrate.le w.thousand_le_millis⟩
  · have hfirst : samples? {} 0 (first :: later) =
        samples? (({} : FrameCounter).frame first).2 1 later := by
      rw [samples?, record_first rfl]
      rfl
    split
    · next hsome => exact hfirst.trans (hlost.2 hsome)
    · next hnone =>
      obtain ⟨r, hr⟩ := Option.ne_none_iff_exists'.1 fun h => hnone (hlost.1 (hfirst.symm.trans h))
      rw [hr, eq_samples_of_samples? hr]

/-- Frames that go back in time are counted in the window that is open. -/
example :
    samples {} 0 [5 * 10 ^ 9, 3 * 10 ^ 9, 6 * 10 ^ 9, 10 ^ 9, 7 * 10 ^ 9, 0] =
      ([(2, 2), (4, 2)], ⟨some (7 * 10 ^ 9), 1, 2⟩) := by decide

/-- A frame half a second after the first, and one that ends their window. -/
def eon : List ℕ :=
  [5 * 10 ^ 8, (2 ^ 64 + 1) * 10 ^ 6]

/-- Two gaps whose milliseconds 64 bits hold make a window whose milliseconds they do not
hold.  Only one of these is left, and two frames in all that time count as two thousand
in a second. -/
theorem not_rate_eon :
    List.IsChain (fun s t => t < s + 2 ^ 64 * 10 ^ 6) (0 :: eon) ∧
      (samples {} 0 (0 :: eon)).1 = [(2, 2000)] ∧
      samples? {} 0 (0 :: eon) = some (samples {} 0 (0 :: eon)) ∧
      ∃ w : Window, w.opened = 0 ∧ w.frames = eon ∧ w.count < 2 ^ 32 ∧
        ¬2000 * w.millis ≤ 1000 * w.count ∧ ¬2000 ≤ w.count := by
  refine ⟨by decide, by decide, by decide, ?_⟩
  exact ⟨⟨0, [5 * 10 ^ 8], (2 ^ 64 + 1) * 10 ^ 6, by decide, by decide⟩, rfl, rfl, by decide⟩

end BrowserHost.FrameCounter
