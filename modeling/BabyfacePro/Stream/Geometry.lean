import BabyfacePro.Core.Probe
import BabyfacePro.Lib.Multiples
import BabyfacePro.Rates

/-!
# URB geometry

The size and the count of the URBs that `babyface_pcm_hw_params` chooses from the period. The size is
rounded to whole packets several times over, and `bfUrbFrames_eq_zero_iff` says that no rounding
loses a size that fits. Periods are at most `2^18` frames, so nothing here wraps in 32 bits.
-/

namespace BabyfacePro

open Multiples

/-- What `babyface_probe` makes of the module parameters. -/
structure Clamped (s : Stream) : Prop where
  nurbs : 2 ≤ s.nurbs ∧ s.nurbs ≤ 16
  frames_per_urb : 8 ≤ s.frames_per_urb ∧ s.frames_per_urb ≤ 1024 ∧ 8 ∣ s.frames_per_urb
  urb_frames_min : 8 ≤ s.urb_frames_min ∧ s.urb_frames_min ≤ s.frames_per_urb ∧
    8 ∣ s.urb_frames_min

/-- The parameters of a card are clamped from its start. -/
theorem probeChip_clamped (p : Params) : Clamped (probeChip p).toStream where
  nurbs := by
    simp only [probeChip, clamp]
    omega
  frames_per_urb := by
    simp only [probeChip, Params.framesPerUrb, clamp]
    omega
  urb_frames_min := by
    simp only [probeChip, Params.framesPerUrb, clamp]
    omega

/-- `bf_session_period`. -/
def bfSessionPeriod (c : Chip) : ℕ := c.urb_frames * divRoundUp c.urbs_active 2

/-- `bf_split_period`, under the module parameter `urb_split`. -/
def bfSplitPeriod (urb_split : ℤ) (r : BfRate) (period : ℕ) : Bool :=
  if urb_split = 1 then false
  else if urb_split > 1 then true
  else decide (128 ≤ period ∧ period ≤ 256 ∧ r.rate ≤ period / 2 * 750)

/-- The largest URB of a rate, `hi`. -/
def urbHi (c : Chip) (r : BfRate) : ℕ := roundDown c.frames_per_urb r.min_fpu

/-- The smallest URB of a rate, `lo`. -/
def urbLo (c : Chip) (r : BfRate) : ℕ := roundUp (max c.urb_frames_min r.min_fpu) r.min_fpu

/-- The size that `bf_urb_frames` aims at, before it is clamped. -/
def urbAim (urb_split : ℤ) (c : Chip) (r : BfRate) (period : ℕ) : ℕ :=
  let urb := roundDown (period / divRoundUp period (urbHi c r)) r.min_fpu
  if bfSplitPeriod urb_split r period then roundDown (urb / 2) r.min_fpu else urb

/-- `bf_urb_frames`. -/
def bfUrbFrames (urb_split : ℤ) (c : Chip) (r : BfRate) (period : ℕ) : ℕ :=
  let hi := urbHi c r
  let lo := urbLo c r
  if hi = 0 ∨ lo > hi ∨ period < r.min_fpu then 0
  else
    let urb := max lo (min (urbAim urb_split c r period) hi)
    if urb ≤ period then urb else 0

/-- The count of URBs in `babyface_pcm_hw_params`, for URBs of `urb` frames. -/
def bfUrbCount (urb_split : ℤ) (c : Chip) (r : BfRate) (period urb : ℕ) : ℕ :=
  let n := 2 * (period / urb)
  max 2 (min (if bfSplitPeriod urb_split r period then n - 1 else n) c.nurbs)

/-- A packet holds at least a frame. -/
theorem min_fpu_pos {r : BfRate} (hr : r ∈ bfRates) : 0 < r.min_fpu := by
  revert r
  decide

section Size

variable (urb_split : ℤ) (c : Chip) {r : BfRate} (period : ℕ)

/-- The size aimed at is a whole number of packets. -/
theorem dvd_urbAim : r.min_fpu ∣ urbAim urb_split c r period := by
  unfold urbAim
  split <;> exact dvd_roundDown _ _

/-- The size aimed at fits the period. -/
theorem urbAim_le : urbAim urb_split c r period ≤ period := by
  have hurb : roundDown (period / divRoundUp period (urbHi c r)) r.min_fpu ≤ period :=
    (roundDown_le _ _).trans (Nat.div_le_self _ _)
  unfold urbAim
  split
  · exact (roundDown_le _ _).trans ((Nat.div_le_self _ _).trans hurb)
  · exact hurb

/-- The size is 0 exactly when the smallest URB of the rate does not fit. -/
theorem bfUrbFrames_eq_zero_iff (hr : r ∈ bfRates) :
    bfUrbFrames urb_split c r period = 0 ↔
      ¬ (urbLo c r ≤ urbHi c r ∧ urbLo c r ≤ period) := by
  have hpkt : 0 < r.min_fpu := min_fpu_pos hr
  have hlo : r.min_fpu ≤ urbLo c r := (le_max_right _ _).trans (le_roundUp hpkt)
  have haim := urbAim_le urb_split c (r := r) period
  unfold bfUrbFrames
  constructor
  · intro h hfit
    dsimp only at h
    split_ifs at h with hrefuse hle <;> omega
  · intro h
    dsimp only
    split_ifs with hrefuse hle <;> omega

/-- A size that is not 0 is a whole number of packets between the smallest and the largest URB, and
fits the period. -/
theorem bfUrbFrames_spec (h : bfUrbFrames urb_split c r period ≠ 0) :
    r.min_fpu ∣ bfUrbFrames urb_split c r period ∧
      urbLo c r ≤ bfUrbFrames urb_split c r period ∧
      bfUrbFrames urb_split c r period ≤ urbHi c r ∧ bfUrbFrames urb_split c r period ≤ period := by
  unfold bfUrbFrames at h ⊢
  dsimp only at h ⊢
  split at h
  · exact absurd rfl h
  · rename_i hfit
    split at h
    · rename_i hle
      rw [if_neg hfit, if_pos hle]
      refine ⟨?_, le_max_left _ _, by omega, hle⟩
      -- Both ends of the clamp are multiples, and so is what lies between.
      have hmin : r.min_fpu ∣ min (urbAim urb_split c r period) (urbHi c r) := by
        rcases min_choice (urbAim urb_split c r period) (urbHi c r) with hm | hm <;> rw [hm]
        · exact dvd_urbAim urb_split c period
        · exact dvd_roundDown _ _
      rcases max_choice (urbLo c r) (min (urbAim urb_split c r period) (urbHi c r)) with hm | hm <;>
        rw [hm]
      · exact dvd_roundUp _ _
      · exact hmin
    · exact absurd rfl h

end Size

/-- The URBs of a session: at least two and no more than there are, no more than two periods in
flight, and half of them, rounded up, within a period. -/
theorem bfUrbCount_spec (urb_split : ℤ) {c : Chip} (r : BfRate) {period urb : ℕ}
    (hc : 2 ≤ c.nurbs) (hurb : 0 < urb) (hle : urb ≤ period) :
    2 ≤ bfUrbCount urb_split c r period urb ∧ bfUrbCount urb_split c r period urb ≤ c.nurbs ∧
      bfUrbCount urb_split c r period urb * urb ≤ 2 * period ∧
      urb * divRoundUp (bfUrbCount urb_split c r period urb) 2 ≤ period := by
  -- The URB is at most the period, so the period holds at least one.
  have hq : 1 ≤ period / urb := (Nat.one_le_div_iff hurb).mpr hle
  -- However the URBs are split, they are at most two of each that fits the period.
  have hn : bfUrbCount urb_split c r period urb ≤ 2 * (period / urb) := by
    unfold bfUrbCount
    dsimp only
    split <;> omega
  have hmul : period / urb * urb ≤ period := Nat.div_mul_le_self period urb
  refine ⟨le_max_left _ _, max_le hc (min_le_right _ _), ?_, ?_⟩
  -- In flight: the count times the length is at most two periods.
  · calc bfUrbCount urb_split c r period urb * urb
        ≤ 2 * (period / urb) * urb := Nat.mul_le_mul_right urb hn
      _ = 2 * (period / urb * urb) := Nat.mul_assoc 2 _ _
      _ ≤ 2 * period := Nat.mul_le_mul_left 2 hmul
  -- Half of the count, rounded up, is at most what fits one period.
  · calc urb * divRoundUp (bfUrbCount urb_split c r period urb) 2
        ≤ urb * (period / urb) := Nat.mul_le_mul_left urb (divRoundUp_two_le hn)
      _ ≤ period := Nat.mul_div_le period urb

/-- The URB size is 0 exactly when no whole number of packets lies within the limits and the period,
and is such a number otherwise. The count that goes with it keeps two periods in flight at most, and
a session of that size and count passes the period's own check in prepare and START. -/
theorem urb_geometry_exact {c : Chip} (hc : Clamped c.toStream) (urb_split : ℤ) {r : BfRate}
    (hr : r ∈ bfRates) (period : ℕ) :
    (bfUrbFrames urb_split c r period = 0 ↔
      ¬ ∃ u, r.min_fpu ∣ u ∧ max c.urb_frames_min r.min_fpu ≤ u ∧
        u ≤ min c.frames_per_urb period) ∧
    ∀ u, bfUrbFrames urb_split c r period = u → u ≠ 0 →
      r.min_fpu ∣ u ∧ max c.urb_frames_min r.min_fpu ≤ u ∧ u ≤ min c.frames_per_urb period ∧
      ∀ n, bfUrbCount urb_split c r period u = n →
        2 ≤ n ∧ n ≤ c.nurbs ∧ n * u ≤ 2 * period ∧ u * divRoundUp n 2 ≤ period ∧
        ¬ period < bfSessionPeriod { c with urb_frames := u, urbs_active := n } := by
  have hpkt : 0 < r.min_fpu := min_fpu_pos hr
  refine ⟨?_, ?_⟩
  -- Zero means that no multiple of the packet lies in between, as the source rounds both ends.
  · rw [bfUrbFrames_eq_zero_iff urb_split c period hr, exists_multiple_iff hpkt]
    exact Iff.rfl
  · rintro u rfl hu
    obtain ⟨hdvd, hlo, hhi, hle⟩ := bfUrbFrames_spec urb_split c period hu
    refine ⟨hdvd, (le_roundUp hpkt).trans hlo, le_min (hhi.trans (roundDown_le _ _)) hle, ?_⟩
    rintro n rfl
    obtain ⟨htwo, hmax, hflight, hhalf⟩ :=
      bfUrbCount_spec urb_split r hc.nurbs.1 (Nat.pos_of_ne_zero hu) hle
    -- The last part is the period's check, which is what the half of the count says.
    exact ⟨htwo, hmax, hflight, hhalf, Nat.not_lt.mpr hhalf⟩

/-- With the default parameters, at 48 kHz. -/
theorem urb_geometry_exact_default :
    bfUrbFrames 0 (probeChip {}) ⟨48000, BF_ALT_1, 56, 8⟩ 256 = 128 ∧
      bfUrbCount 0 (probeChip {}) ⟨48000, BF_ALT_1, 56, 8⟩ 256 128 = 3 ∧
      ¬ 256 < bfSessionPeriod { probeChip {} with urb_frames := 128, urbs_active := 3 } := by
  have hrun := urb_geometry_exact (probeChip_clamped {}) 0
    (r := ⟨48000, BF_ALT_1, 56, 8⟩) (by decide) 256
  have hurb : bfUrbFrames 0 (probeChip {}) ⟨48000, BF_ALT_1, 56, 8⟩ 256 = 128 := by decide
  have hcount : bfUrbCount 0 (probeChip {}) ⟨48000, BF_ALT_1, 56, 8⟩ 256 128 = 3 := by decide
  obtain ⟨_, _, _, hn⟩ := hrun.2 128 hurb (by decide)
  obtain ⟨_, _, _, _, hperiod⟩ := hn 3 hcount
  exact ⟨hurb, hcount, hperiod⟩

end BabyfacePro
