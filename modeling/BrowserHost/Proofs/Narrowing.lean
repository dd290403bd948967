import BrowserHost.Proofs.Cadence

/-!
# BrowserHost.Proofs.Narrowing

How far the words of a rate reach.  A thousand times the frames fit 64 bits, and the rate
fits 32.  The milliseconds of a window need not fit: they are raised to one before they
are cut to 64 bits, and not after.  So what the frames are divided by may be less than
the milliseconds, and it may be nothing.

* `toNat_divisor`, `toNat_product`, `toNat_saturate`: each conversion by itself;
* `record_within`, `record_failed`, `record_sampled`: what a frame does to the open window;
* `closing_decided`: which frames close their window with the right sample;
* `not_exact_epoch`: a frame that does so with a wrong one, and one that fails;
* `samples?_cons_of_not_failsAt`, `eq_samples_of_samples?`: many frames.
-/

namespace BrowserHost.FrameCounter

/-! ## words -/

section

variable {elapsed : ℕ}

/-- Of the milliseconds of a window the low 64 bits are left. -/
theorem toNat_divisor (h : window ≤ elapsed) :
    (divisor elapsed).toNat = elapsed / 10 ^ 6 % 2 ^ 64 := by
  have hdivisor : divisor elapsed = UInt64.ofNat (max (elapsed / 10 ^ 6) 1) := rfl
  rw [hdivisor, max_millis h, UInt64.toNat_ofNat']

theorem toNat_divisor_eq_iff (h : window ≤ elapsed) :
    (divisor elapsed).toNat = elapsed / 10 ^ 6 ↔ elapsed / 10 ^ 6 < 2 ^ 64 := by
  rw [toNat_divisor h, Nat.mod_eq_iff_lt (by decide)]

theorem divisor_eq_zero_iff (h : window ≤ elapsed) :
    divisor elapsed = 0 ↔ 2 ^ 64 ∣ elapsed / 10 ^ 6 := by
  rw [← UInt64.toNat_inj, toNat_divisor h, UInt64.toNat_zero, Nat.dvd_iff_mod_eq_zero]

/-- However many frames 32 bits count, 64 bits hold a thousand times as many. -/
theorem toNat_product (frames : UInt32) :
    (frames.toUInt64 * 1000).toNat = 1000 * frames.toNat := by
  have hlt := frames.toNat_lt
  have hthousand : (1000 : UInt64).toNat = 1000 := rfl
  rw [UInt64.toNat_mul, UInt32.toNat_toUInt64, hthousand, Nat.mul_comm]
  exact Nat.mod_eq_of_lt (by omega)

theorem toNat_saturate (word : UInt64) : (saturate word).toNat = min word.toNat Text.max32 := by
  have hmax : Text.max32 < 2 ^ 32 := by decide
  unfold saturate
  split
  · next hle =>
    rw [UInt64.toNat_toUInt32, Nat.mod_eq_of_lt (by omega), Nat.min_eq_left hle]
  · next hgt =>
    rw [UInt32.toNat_ofNat_of_lt' hmax, Nat.min_eq_right (by omega)]

theorem rate?_eq_none (frames : UInt32) (h : window ≤ elapsed)
    (hlost : 2 ^ 64 ∣ elapsed / 10 ^ 6) : rate? frames elapsed = none :=
  if_pos ((divisor_eq_zero_iff h).2 hlost)

/-- Where words give a rate, it is that of numbers. -/
theorem rate?_eq_some (frames : UInt32) (h : window ≤ elapsed)
    (hleft : ¬2 ^ 64 ∣ elapsed / 10 ^ 6) :
    ∃ fps, rate? frames elapsed = some fps ∧ fps.toNat = rate frames.toNat elapsed := by
  refine ⟨_, if_neg (mt (divisor_eq_zero_iff h).1 hleft), ?_⟩
  rw [toNat_saturate, UInt64.toNat_div, toNat_product, toNat_divisor h, rate_eq_mod _ h]

end

/-! ## one frame -/

section

variable {c : FrameCounter} {opened now : ℕ}

theorem record_first (h : c.windowStart = none) :
    c.record now = (.counted, { c with windowStart := some now }) := by
  unfold record
  rw [h]

theorem record_within (h : c.windowStart = some opened) (hnow : now - opened < window) :
    c.record now = (.counted, { c with frames := min (c.frames + 1) Text.max32 }) := by
  unfold record
  rw [h]
  exact if_pos hnow

theorem record_failed (h : c.windowStart = some opened) (hnow : window ≤ now - opened)
    (hlost : 2 ^ 64 ∣ (now - opened) / 10 ^ 6) :
    c.record now = (.failed, { c with frames := min (c.frames + 1) Text.max32 }) := by
  unfold record
  rw [h]
  simp only [if_neg (Nat.not_lt.2 hnow), rate?_eq_none _ hnow hlost]

theorem record_sampled (h : c.windowStart = some opened) (hnow : window ≤ now - opened)
    (hleft : ¬2 ^ 64 ∣ (now - opened) / 10 ^ 6) :
    c.record now =
      (.sampled (rate (min (c.frames + 1) Text.max32) (now - opened)),
        { windowStart := some now, frames := 0
          fps := rate (min (c.frames + 1) Text.max32) (now - opened) }) := by
  have hfits : min (c.frames + 1) Text.max32 < 2 ^ 32 :=
    Nat.lt_of_le_of_lt (Nat.min_le_right _ _) (by decide)
  obtain ⟨fps, hfps, hrate⟩ :=
    rate?_eq_some (UInt32.ofNat (min (c.frames + 1) Text.max32)) hnow hleft
  rw [UInt32.toNat_ofNat_of_lt' hfits] at hrate
  unfold record
  rw [h]
  simp only [if_neg (Nat.not_lt.2 hnow), hfps, hrate]

end

/-! ## the sample of a window -/

/-- A frame that comes a second or more after the opening of the window, on whatever
counter.  64 bits hold a thousand times the frames counted, and 32 bits hold their rate;
the milliseconds stay whole just if 64 bits hold them.

If they do, the frame closes the window, and the sample is the number of frames in a
second, rounded down.  If they are a whole multiple of `2 ^ 64` the division fails.  In
any other case the frames are divided by what 64 bits hold of the milliseconds, which
gives the same sample just if that is still long enough for it to be zero. -/
theorem closing_decided (c : FrameCounter) (opened now : ℕ)
    (hopened : c.windowStart = some opened) (hnow : opened + window ≤ now) :
    let frames := min (c.frames + 1) (2 ^ 32 - 1)
    let millis := (now - opened) / 10 ^ 6
    let fps := min (1000 * frames / millis) (2 ^ 32 - 1)
    let shown := min (1000 * frames / (millis % 2 ^ 64)) (2 ^ 32 - 1)
    (0 < millis ∧ 1000 * frames < 2 ^ 64 ∧ 1000 * frames / millis < 2 ^ 32 ∧
      ((divisor (now - opened)).toNat = millis ↔ millis < 2 ^ 64)) ∧
    (millis < 2 ^ 64 →
      c.record now = (.sampled fps, { windowStart := some now, frames := 0, fps := fps })) ∧
    (2 ^ 64 ∣ millis → c.record now = (.failed, { c with frames := frames })) ∧
    (¬2 ^ 64 ∣ millis →
      c.record now = (.sampled shown, { windowStart := some now, frames := 0, fps := shown }) ∧
      (shown = fps ↔ millis < 2 ^ 64 ∨ 1000 * frames < millis % 2 ^ 64)) := by
  intro frames millis fps shown
  have hfull : window ≤ now - opened := Nat.le_sub_of_add_le' hnow
  have hlong : 1000 ≤ millis := thousand_le_div hfull
  have hframes : frames ≤ 2 ^ 32 - 1 := Nat.min_le_right _ _
  have hfps : 1000 * frames / millis ≤ frames := div_millis_le hlong
  have hshown : rate frames (now - opened) = shown := rate_eq_mod frames hfull
  have hsampled (hleft : ¬2 ^ 64 ∣ millis) :
      c.record now = (.sampled shown, { windowStart := some now, frames := 0, fps := shown }) := by
    rw [← hshown]
    exact record_sampled hopened hfull hleft
  have hexact (hleft : ¬2 ^ 64 ∣ millis) :
      shown = fps ↔ millis < 2 ^ 64 ∨ 1000 * frames < millis % 2 ^ 64 :=
    div_mod_eq_iff hframes (mt Nat.dvd_of_mod_eq_zero hleft)
  refine ⟨⟨by omega, by omega, by omega, toNat_divisor_eq_iff hfull⟩, fun hshort => ?_,
    record_failed hopened hfull, fun hleft => ⟨hsampled hleft, hexact hleft⟩⟩
  have hleft : ¬2 ^ 64 ∣ millis := Nat.not_dvd_of_pos_of_lt (by omega) hshort
  rw [hsampled hleft, (hexact hleft).2 (.inl hshort)]

/-- One and a half seconds, on a counter that has counted all that it can. -/
theorem closing_decided_saturated :
    (⟨some 7, 2 ^ 32 - 1, 3⟩ : FrameCounter).windowStart = some 7 ∧
      7 + window ≤ 7 + 1500999999 ∧
      (⟨some 7, 2 ^ 32 - 1, 3⟩ : FrameCounter).record (7 + 1500999999) =
        (.sampled 2863311530, ⟨some (7 + 1500999999), 0, 2863311530⟩) := by
  obtain ⟨-, hshort, -⟩ :=
    closing_decided ⟨some 7, 2 ^ 32 - 1, 3⟩ 7 (7 + 1500999999) rfl (by decide)
  exact ⟨rfl, by decide, hshort (by decide)⟩

/-- Two windows of one frame, both far shorter than `2 ^ 63` seconds.  Their milliseconds
are more than 64 bits hold.  Of the first one of them is left, and the frame counts as a
thousand in a second; of the second none is, and the division fails. -/
theorem not_exact_epoch :
    (2 ^ 64 + 1) * 10 ^ 6 < 2 ^ 63 * window ∧
      (({} : FrameCounter).record 0).2 = ⟨some 0, 0, 0⟩ ∧
      (⟨some 0, 0, 0⟩ : FrameCounter).record ((2 ^ 64 + 1) * 10 ^ 6) =
        (.sampled 1000, ⟨some ((2 ^ 64 + 1) * 10 ^ 6), 0, 1000⟩) ∧
      min (1000 * 1 / ((2 ^ 64 + 1) * 10 ^ 6 / 10 ^ 6)) (2 ^ 32 - 1) = 0 ∧
      (⟨some 0, 0, 0⟩ : FrameCounter).record (2 ^ 64 * 10 ^ 6) = (.failed, ⟨some 0, 1, 0⟩) := by
  decide

/-! ## many frames -/

/-- The frame would close a window of which 64 bits hold nothing. -/
def FailsAt (c : FrameCounter) (now : ℕ) : Prop :=
  ∃ opened, c.windowStart = some opened ∧ opened + window ≤ now ∧
    2 ^ 64 ∣ (now - opened) / 10 ^ 6

section

variable {c : FrameCounter} {k t : ℕ} {ts : List ℕ}

theorem samples?_cons_of_failsAt (h : c.FailsAt t) : c.samples? k (t :: ts) = none := by
  obtain ⟨opened, hopened, hfull, hlost⟩ := h
  rw [samples?, record_failed hopened (Nat.le_sub_of_add_le' hfull) hlost]

/-- Any other frame does in words what it does in numbers. -/
theorem record_eq_frame (h : ¬c.FailsAt t) :
    c.record t = ((c.frame t).1.elim .counted .sampled, (c.frame t).2) := by
  cases hopened : c.windowStart with
  | none =>
    rw [record_first hopened]
    simp [frame, hopened]
  | some opened =>
    rcases Nat.lt_or_ge (t - opened) window with hwithin | hfull
    · rw [record_within hopened hwithin, frame_within hopened hwithin, Option.elim_none]
    · have hwindow : 0 < window := by decide
      have hleft : ¬2 ^ 64 ∣ (t - opened) / 10 ^ 6 := fun hlost =>
        h ⟨opened, hopened, by omega, hlost⟩
      rw [record_sampled hopened hfull hleft, frame_closing hopened hfull, Option.elim_some]

theorem samples?_cons_of_not_failsAt (h : ¬c.FailsAt t) :
    c.samples? k (t :: ts) = ((c.frame t).2.samples? (k + 1) ts).map fun r =>
      (((c.frame t).1.map (k, ·)).toList ++ r.1, r.2) := by
  rw [samples?, record_eq_frame h]
  cases (c.frame t).1 with
  | none => simp
  | some fps => rfl

/-- If all frames are recorded, what is recorded is what is counted. -/
theorem eq_samples_of_samples? {r : List (ℕ × ℕ) × FrameCounter}
    (h : c.samples? k ts = some r) : r = c.samples k ts := by
  induction ts generalizing c k r with
  | nil => exact (Option.some.inj h).symm
  | cons t ts ih =>
    have hpasses : ¬c.FailsAt t := fun hfails => by
      rw [samples?_cons_of_failsAt hfails] at h
      cases h
    rw [samples?_cons_of_not_failsAt hpasses, Option.map_eq_some_iff] at h
    obtain ⟨rest, hrest, rfl⟩ := h
    obtain rfl := ih hrest
    refine Prod.ext (samples_cons c k t ts).symm ?_
    rw [samples_snd, samples_snd, feed]

end

end BrowserHost.FrameCounter
