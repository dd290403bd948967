import BrowserHost.FrameCounter
import Mathlib.Algebra.Order.Floor.Div
import Mathlib.Tactic.Linarith
import Mathlib.Tactic.Ring

/-!
# BrowserHost.Proofs.Cadence

Frames at a steady pace.  A window is closed by the first frame that comes a
second or more after its opening, and the same frame opens the next one.  So
windows of such frames all hold as many of them and last as long, no frame is
lost between two of them, and the two roundings in a rate stay within a
thousandth.

* `frame_within`, `frame_closing`: what a frame does to the open window;
* `rate_eq_mod`, `rate_eq`: a rate is a quotient of whole numbers, in which nothing
  overflows if 64 bits hold the milliseconds;
* `Steady.step`: the window that is open, frame by frame;
* `steady_samples`: which frames give a sample, and which one they give.
-/

namespace BrowserHost.FrameCounter

/-! ## one frame -/

section

variable {c : FrameCounter} {opened now : Nat}

theorem frame_within (h : c.windowStart = some opened) (hnow : now - opened < window) :
    c.frame now = (none, { c with frames := min (c.frames + 1) Text.max32 }) := by
  unfold frame
  rw [h]
  exact if_pos hnow

theorem frame_closing (h : c.windowStart = some opened) (hnow : window ≤ now - opened) :
    c.frame now =
      (some (rate (min (c.frames + 1) Text.max32) (now - opened)),
        { windowStart := some now, frames := 0
          fps := rate (min (c.frames + 1) Text.max32) (now - opened) }) := by
  unfold frame
  rw [h]
  exact if_neg (Nat.not_lt.2 hnow)

end

/-! ## many frames -/

theorem samples_cons (c : FrameCounter) (k t : Nat) (ts : List Nat) :
    (c.samples k (t :: ts)).1 =
      ((c.frame t).1.map (k, ·)).toList ++ ((c.frame t).2.samples (k + 1) ts).1 := by
  rcases hframe : c.frame t with ⟨_ | f, d⟩ <;> simp [samples, hframe]

theorem samples_append (c : FrameCounter) (k : Nat) (ts us : List Nat) :
    (c.samples k (ts ++ us)).1 =
      (c.samples k ts).1 ++ ((c.feed ts).samples (k + ts.length) us).1 := by
  induction ts generalizing c k with
  | nil => rfl
  | cons t ts ih =>
    have hlength : k + (t :: ts).length = k + 1 + ts.length := by
      rw [List.length_cons]
      omega
    rw [hlength, List.cons_append, samples_cons, samples_cons, ih, feed, List.append_assoc]

/-! ## rates -/

/-- No window is shorter than a thousand milliseconds. -/
theorem thousand_le_div {elapsed : Nat} (h : window ≤ elapsed) : 1000 ≤ elapsed / 10 ^ 6 := by
  rw [Nat.le_div_iff_mul_le (by decide)]
  exact h

/-- So there is always one to divide by, until they are cut to 64 bits. -/
theorem max_millis {elapsed : Nat} (h : window ≤ elapsed) :
    max (elapsed / 10 ^ 6) 1 = elapsed / 10 ^ 6 := by
  have hlong := thousand_le_div h
  omega

/-- No more frames come in a second than in all. -/
theorem div_millis_le {frames millis : Nat} (hlong : 1000 ≤ millis) :
    1000 * frames / millis ≤ frames :=
  Nat.div_le_of_le_mul (Nat.mul_le_mul_right frames hlong)

/-- The quotient by what 64 bits keep of the milliseconds is the quotient by all of them if
they keep all.  If not, that is zero, and so the other has to be. -/
theorem div_mod_eq_iff {frames millis : Nat} (hframes : frames ≤ Text.max32)
    (hleft : millis % 2 ^ 64 ≠ 0) :
    min (1000 * frames / (millis % 2 ^ 64)) Text.max32 =
        min (1000 * frames / millis) Text.max32 ↔
      millis < 2 ^ 64 ∨ 1000 * frames < millis % 2 ^ 64 := by
  have hmax : Text.max32 = 2 ^ 32 - 1 := rfl
  rcases Nat.lt_or_ge millis (2 ^ 64) with hshort | hlong
  · rw [Nat.mod_eq_of_lt hshort]
    exact iff_of_true rfl (.inl hshort)
  · have hzero : 1000 * frames / millis = 0 := Nat.div_eq_of_lt (by omega)
    have hmin (n : Nat) : min n Text.max32 = 0 ↔ n = 0 := by omega
    rw [hzero, Nat.zero_min, hmin, Nat.div_eq_zero_iff]
    omega

/-- The rate of a window is the quotient by what 64 bits keep of its milliseconds. -/
theorem rate_eq_mod (frames : Nat) {elapsed : Nat} (h : window ≤ elapsed) :
    rate frames elapsed =
      min (1000 * frames / (elapsed / 10 ^ 6 % 2 ^ 64)) Text.max32 := by
  have hrate : rate frames elapsed =
      min (frames * 1000 / (max (elapsed / 10 ^ 6) 1 % 2 ^ 64)) Text.max32 := rfl
  rw [hrate, max_millis h, Nat.mul_comm]

/-- The rate of a window is that of its frames to its whole milliseconds, rounded
down. -/
theorem rate_eq {frames elapsed : Nat} (hframes : frames ≤ Text.max32) (h : window ≤ elapsed)
    (hfits : elapsed / 10 ^ 6 < 2 ^ 64) :
    rate frames elapsed = frames * 1000 / (elapsed / 10 ^ 6) := by
  have hle := (div_millis_le (thousand_le_div h)).trans hframes
  rw [rate_eq_mod frames h, Nat.mod_eq_of_lt hfits, Nat.min_eq_left hle, Nat.mul_comm]

/-! ## windows at a steady pace -/

/-- How many frames a window takes if one comes every `p` nanoseconds: as many as
fill a second. -/
def perWindow (p : Nat) : Nat := window ⌈/⌉ p

/-- The rate of such a window. -/
def steadyRate (p : Nat) : Nat := rate (perWindow p) (perWindow p * p)

section

variable {p : Nat}

theorem perWindow_le_iff (hp : 0 < p) {m : Nat} : perWindow p ≤ m ↔ window ≤ m * p := by
  rw [perWindow, ceilDiv_le_iff_le_mul hp, Nat.mul_comm]

theorem perWindow_pos (hp : 0 < p) : 0 < perWindow p := by
  by_contra h
  have hnone := (perWindow_le_iff hp).1 (Nat.not_lt.1 h)
  rw [Nat.zero_mul] at hnone
  exact absurd hnone (by decide)

theorem perWindow_le_window (hp : 0 < p) : perWindow p ≤ window :=
  (perWindow_le_iff hp).2 (Nat.le_mul_of_pos_right _ hp)

/-- A window is over less than one frame after its second. -/
theorem perWindow_mul_lt (hp : 0 < p) : perWindow p * p < window + p := by
  have hpos := perWindow_pos hp
  have hlast : ¬perWindow p ≤ perWindow p - 1 := by omega
  rw [perWindow_le_iff hp, Nat.not_le, Nat.sub_mul, Nat.one_mul] at hlast
  omega

/-- The milliseconds of a window fit 64 bits if those between two frames do. -/
theorem perWindow_mul_div_lt (hp : 0 < p) (hfits : p < 2 ^ 64 * 10 ^ 6) :
    perWindow p * p / 10 ^ 6 < 2 ^ 64 := by
  have hwindow : window = 10 ^ 9 := rfl
  rw [Nat.div_lt_iff_lt_mul (by decide)]
  by_cases hlong : window ≤ p
  · -- one frame fills the window
    have hone : perWindow p ≤ 1 := (perWindow_le_iff hp).2 (by omega)
    have hle := Nat.mul_le_mul_right p hone
    omega
  · have hlt := perWindow_mul_lt hp
    omega

theorem steadyRate_eq (hp : 0 < p) (hfits : p < 2 ^ 64 * 10 ^ 6) :
    steadyRate p = perWindow p * 1000 / (perWindow p * p / 10 ^ 6) :=
  rate_eq ((perWindow_le_window hp).trans (by decide)) ((perWindow_le_iff hp).1 (Nat.le_refl _))
    (perWindow_mul_div_lt hp hfits)

/-- Rounding the time down makes up for rounding the rate down. -/
theorem le_steadyRate (hp : 0 < p) (hfits : p < 2 ^ 64 * 10 ^ 6) :
    window / p ≤ steadyRate p := by
  have hlong := thousand_le_div ((perWindow_le_iff hp).1 (Nat.le_refl (perWindow p)))
  have hmillis := Nat.div_mul_le_self (perWindow p * p) (10 ^ 6)
  have hpace := Nat.div_mul_le_self window p
  have hwindow : window = 1000 * 10 ^ 6 := rfl
  rw [steadyRate_eq hp hfits, Nat.le_div_iff_mul_le (by omega)]
  refine Nat.le_of_mul_le_mul_right ?_ (show 0 < 10 ^ 6 by decide)
  calc window / p * (perWindow p * p / 10 ^ 6) * 10 ^ 6
      = window / p * (perWindow p * p / 10 ^ 6 * 10 ^ 6) := Nat.mul_assoc _ _ _
    _ ≤ window / p * (perWindow p * p) := Nat.mul_le_mul_left _ hmillis
    _ = perWindow p * (window / p * p) := by ring
    _ ≤ perWindow p * window := Nat.mul_le_mul_left _ hpace
    _ = perWindow p * 1000 * 10 ^ 6 := by rw [hwindow, Nat.mul_assoc]

/-- The time is rounded down by less than one millisecond in a thousand. -/
theorem steadyRate_lt (hp : 0 < p) (hfits : p < 2 ^ 64 * 10 ^ 6) :
    1000 * (steadyRate p * p) < 1001 * window := by
  have hlong := thousand_le_div ((perWindow_le_iff hp).1 (Nat.le_refl (perWindow p)))
  have hrate : steadyRate p * (perWindow p * p / 10 ^ 6) ≤ perWindow p * 1000 := by
    rw [steadyRate_eq hp hfits]
    exact Nat.div_mul_le_self _ _
  have hmillis : perWindow p * p < (perWindow p * p / 10 ^ 6 + 1) * 10 ^ 6 :=
    Nat.lt_mul_of_div_lt (Nat.lt_succ_self _) (by decide)
  have hpos := perWindow_pos hp
  have hwindow : window = 1000 * 10 ^ 6 := rfl
  generalize perWindow p * p / 10 ^ 6 = millis at *
  rcases Nat.eq_zero_or_pos (steadyRate p) with hzero | hsome
  · rw [hzero, hwindow]
    omega
  · refine Nat.lt_of_mul_lt_mul_right (a := perWindow p) ?_
    have hround : 1000 * (steadyRate p * (millis + 1)) ≤ 1001 * (perWindow p * 1000) := by
      have hone : 1000 * steadyRate p ≤ steadyRate p * millis := by
        rw [Nat.mul_comm]
        exact Nat.mul_le_mul_left _ hlong
      rw [Nat.mul_add, Nat.mul_one]
      omega
    calc 1000 * (steadyRate p * p) * perWindow p
        = 1000 * steadyRate p * (perWindow p * p) := by ring
      _ < 1000 * steadyRate p * ((millis + 1) * 10 ^ 6) := by
        exact Nat.mul_lt_mul_of_pos_left hmillis (by omega)
      _ = 1000 * (steadyRate p * (millis + 1)) * 10 ^ 6 := by ring
      _ ≤ 1001 * (perWindow p * 1000) * 10 ^ 6 := Nat.mul_le_mul_right _ hround
      _ = 1001 * window * perWindow p := by rw [hwindow]; ring

end

/-! ## frame by frame -/

/-- The counter when `done` windows are over and `pending` frames are counted in
the one that is open. -/
structure Steady (p start done pending : Nat) (c : FrameCounter) : Prop where
  lt : pending < perWindow p
  windowStart : c.windowStart = some (start + done * perWindow p * p)
  frames : c.frames = pending
  fps : c.fps = if done = 0 then 0 else steadyRate p

section

variable {p start done pending : Nat} {c : FrameCounter}

theorem Steady.first (hp : 0 < p) (start : Nat) :
    Steady p start 0 0 (({} : FrameCounter).frame start).2 where
  lt := perWindow_pos hp
  windowStart := by simp [frame]
  frames := rfl
  fps := rfl

/-- The next frame is counted, and closes the window if that is then full. -/
theorem Steady.step (hp : 0 < p) (h : Steady p start done pending c) :
    let next := c.frame (start + (done * perWindow p + pending + 1) * p)
    (pending + 1 < perWindow p → next.1 = none ∧ Steady p start done (pending + 1) next.2) ∧
      (pending + 1 = perWindow p →
        next.1 = some (steadyRate p) ∧ Steady p start (done + 1) 0 next.2) := by
  intro next
  have helapsed : start + (done * perWindow p + pending + 1) * p -
      (start + done * perWindow p * p) = (pending + 1) * p := by
    rw [Nat.add_assoc (done * perWindow p), Nat.add_mul]
    omega
  have hcount : min (c.frames + 1) Text.max32 = pending + 1 := by
    have hwindow : window ≤ Text.max32 := by decide
    have hle := perWindow_le_window hp
    have hlt := h.lt
    rw [h.frames]
    omega
  constructor
  · intro hmore
    have hwithin : start + (done * perWindow p + pending + 1) * p -
        (start + done * perWindow p * p) < window := by
      rw [helapsed, ← Nat.not_le, ← perWindow_le_iff hp]
      omega
    have hnext : next = (none, { c with frames := pending + 1 }) :=
      (frame_within h.windowStart hwithin).trans (by rw [hcount])
    rw [hnext]
    exact ⟨rfl, hmore, h.windowStart, rfl, h.fps⟩
  · intro hfull
    have hclosing : window ≤ start + (done * perWindow p + pending + 1) * p -
        (start + done * perWindow p * p) := by
      rw [helapsed, ← perWindow_le_iff hp]
      omega
    have hnext := frame_closing h.windowStart hclosing
    rw [hcount, helapsed, hfull] at hnext
    have hopened : start + (done * perWindow p + pending + 1) * p =
        start + (done + 1) * perWindow p * p := by
      rw [Nat.add_assoc, hfull, Nat.add_mul done 1, Nat.one_mul]
    refine ⟨congrArg Prod.fst hnext, perWindow_pos hp, ?_, ?_, ?_⟩
    · exact (congrArg (fun r => r.2.windowStart) hnext).trans (congrArg some hopened)
    · exact congrArg (fun r => r.2.frames) hnext
    · exact (congrArg (fun r => r.2.fps) hnext).trans (if_neg (Nat.succ_ne_zero done)).symm

end

/-! ## runs of frames -/

/-- The times of so many frames, one every `p` nanoseconds. -/
def paces (p start count : Nat) : List Nat :=
  (List.range count).map fun k => start + k * p

theorem paces_succ (p start count : Nat) :
    paces p start (count + 1) = paces p start count ++ [start + count * p] := by
  simp [paces, List.range_succ]

/-- After so many frames and one more, all samples are those of full windows. -/
theorem steady_run {p : Nat} (hp : 0 < p) (start count : Nat) :
    ∃ done pending, count = done * perWindow p + pending ∧
      Steady p start done pending (feed {} (paces p start (count + 1))) ∧
      (samples {} 0 (paces p start (count + 1))).1 =
        (List.range done).map fun i => ((i + 1) * perWindow p, steadyRate p) := by
  induction count with
  | zero =>
    have hone : paces p start 1 = [start] := by simp [paces]
    rw [hone]
    exact ⟨0, 0, by omega, .first hp start, rfl⟩
  | succ count ih =>
    obtain ⟨done, pending, hcount, hsteady, hsamples⟩ := ih
    obtain ⟨hmore, hfull⟩ := hsteady.step hp
    have hlength : (paces p start (count + 1)).length = count + 1 := by simp [paces]
    rw [paces_succ p start (count + 1), feed_append, samples_append, hsamples, hlength,
      Nat.zero_add, samples_cons]
    rw [← hcount] at hmore hfull
    rcases Nat.lt_or_eq_of_le (Nat.succ_le_of_lt hsteady.lt) with hlt | heq
    · obtain ⟨hnone, hnext⟩ := hmore hlt
      refine ⟨done, pending + 1, by omega, hnext, ?_⟩
      rw [hnone]
      simp [samples]
    · obtain ⟨hsome, hnext⟩ := hfull heq
      have hnumber : count + 1 = (done + 1) * perWindow p := by
        rw [Nat.add_mul, Nat.one_mul]
        omega
      refine ⟨done + 1, 0, by omega, hnext, ?_⟩
      rw [hsome, hnumber]
      simp [samples, List.range_succ]

/-- Frames that come every `p` nanoseconds, however many there are and whenever
they begin: the samples are those of the frames whose numbers are multiples of
the frames in a second, rounded up; they are all equal, not below the number of
frames in a second, rounded down, and less than a thousandth above the true rate.
Between two samples the rate shown is that of the last one, and it is 0 until the
first. -/
theorem steady_samples (p start count : Nat) (hp : 0 < p) (hfits : p < 2 ^ 64 * 10 ^ 6) :
    ∃ f, window / p ≤ f ∧ 1000 * (f * p) < 1001 * window ∧
      (samples {} 0 (paces p start count)).1 =
        (List.range ((count - 1) / (window ⌈/⌉ p))).map (fun i => ((i + 1) * (window ⌈/⌉ p), f)) ∧
      (feed {} (paces p start count)).fps = if window ⌈/⌉ p < count then f else 0 := by
  refine ⟨steadyRate p, le_steadyRate hp hfits, steadyRate_lt hp hfits, ?_⟩
  change (samples {} 0 (paces p start count)).1 = (List.range ((count - 1) / perWindow p)).map
      (fun i => ((i + 1) * perWindow p, steadyRate p)) ∧
    (feed {} (paces p start count)).fps = if perWindow p < count then steadyRate p else 0
  cases count with
  | zero => simp [paces, samples, feed]
  | succ count =>
    obtain ⟨done, pending, hcount, hsteady, hsamples⟩ := steady_run hp start count
    have hlt := hsteady.lt
    have hdone : count / perWindow p = done := by
      rw [hcount, Nat.mul_comm, Nat.mul_add_div (perWindow_pos hp), Nat.div_eq_of_lt hlt,
        Nat.add_zero]
    rw [hsamples, hsteady.fps, Nat.add_sub_cancel, hdone]
    refine ⟨rfl, ?_⟩
    -- a window is over exactly if there is a frame for each of its places after the first
    have hsome : done = 0 ↔ ¬perWindow p < count + 1 := by
      rw [← hdone, Nat.div_eq_zero_iff]
      have hpos := perWindow_pos hp
      omega
    by_cases hzero : done = 0
    · rw [if_pos hzero, if_neg (hsome.1 hzero)]
    · rw [if_neg hzero, if_pos (Decidable.not_not.1 (mt hsome.2 hzero))]

/-- Three frames a second and a little over: it takes four to fill one. -/
theorem steady_samples_thirds :
    0 < 333333333 ∧ 333333333 < 2 ^ 64 * 10 ^ 6 ∧
      (samples {} 0 (paces 333333333 7 10)).1 = [(4, 3), (8, 3)] ∧
      (feed {} (paces 333333333 7 4)).fps = 0 := by
  obtain ⟨f, hle, hlt, hsamples, -⟩ :=
    steady_samples 333333333 7 10 (by decide) (by decide)
  obtain ⟨g, -, -, -, hfps⟩ := steady_samples 333333333 7 4 (by decide) (by decide)
  have hwindow : window = 10 ^ 9 := rfl
  have hper : window ⌈/⌉ 333333333 = 4 := by decide
  obtain rfl : f = 3 := by omega
  rw [hper] at hsamples hfps
  exact ⟨by decide, by decide, hsamples, hfps⟩

end BrowserHost.FrameCounter
