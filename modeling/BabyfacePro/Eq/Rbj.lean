import BabyfacePro.Eq.Range
import BabyfacePro.Rates
import Mathlib.Analysis.SpecialFunctions.Pow.Real

/-!
# The reference of the EQ's words

The words of a band are meant to be those of the RBJ cookbook's biquads, with the bandwidth term that
TotalMix computes. The reference is stated over the real numbers. Its cosine, its bandwidth term and its
amplitude are each computed to within a few dozen units of the last place.
-/

namespace BabyfacePro

open Real (pi sin cos)

/-! ## The cookbook's biquads -/

/-- The coefficients of a biquad before they are normalised, as real numbers. -/
structure Rbj where
  b0 : ℝ
  b1 : ℝ
  b2 : ℝ
  a0 : ℝ
  a1 : ℝ
  a2 : ℝ

/-- The peaking equaliser. -/
noncomputable def rbjPeaking (c alpha A : ℝ) : Rbj :=
  { b0 := 1 + alpha * A
    b1 := -2 * c
    b2 := 1 - alpha * A
    a0 := 1 + alpha / A
    a1 := -2 * c
    a2 := 1 - alpha / A }

/-- The low shelf. -/
noncomputable def rbjLowShelf (c alpha A : ℝ) : Rbj :=
  { b0 := A * ((A + 1) - (A - 1) * c + 2 * √A * alpha)
    b1 := 2 * A * ((A - 1) - (A + 1) * c)
    b2 := A * ((A + 1) - (A - 1) * c - 2 * √A * alpha)
    a0 := (A + 1) + (A - 1) * c + 2 * √A * alpha
    a1 := -2 * ((A - 1) + (A + 1) * c)
    a2 := (A + 1) + (A - 1) * c - 2 * √A * alpha }

/-- The high shelf. -/
noncomputable def rbjHighShelf (c alpha A : ℝ) : Rbj :=
  { b0 := A * ((A + 1) + (A - 1) * c + 2 * √A * alpha)
    b1 := -2 * A * ((A - 1) + (A + 1) * c)
    b2 := A * ((A + 1) + (A - 1) * c - 2 * √A * alpha)
    a0 := (A + 1) - (A - 1) * c + 2 * √A * alpha
    a1 := 2 * ((A - 1) - (A + 1) * c)
    a2 := (A + 1) - (A - 1) * c - 2 * √A * alpha }

/-- The five values that the words of a biquad stand for. -/
noncomputable def Rbj.words (k : Rbj) : Fin 5 → ℝ :=
  ![k.a1 / k.a0, k.a2 / k.a0, k.b1 / k.b0, k.b2 / k.b0, k.b0 / k.a0]

/-- The angle of a frequency. -/
noncomputable def rbjAngle (freq_hz fs : ℝ) : ℝ := 2 * pi * freq_hz / fs

/-- The bandwidth term, its angle held to a right angle. -/
noncomputable def rbjAlpha (w0 Q : ℝ) : ℝ := sin (min (w0 / (2 * Q)) (pi / 2))

/-- The square root of the amplitude of a gain in decibels. -/
noncomputable def rbjRoot (gain : ℝ) : ℝ := 10 ^ (gain / 80)

/-- The reference's values for the words of a band. -/
noncomputable def rbjWords (type freq_hz q100 gain_x10 fs : ℤ) : Fin 5 → ℝ :=
  let w0 := rbjAngle freq_hz fs
  let c := cos w0
  let alpha := rbjAlpha w0 (q100 / 100)
  let A := (10 : ℝ) ^ ((gain_x10 : ℝ) / 10 / 40)
  if type = 1 then (rbjPeaking c alpha A).words
  else if type = 2 then (rbjLowShelf c alpha A).words
  else (rbjHighShelf c alpha A).words

/-! ## The amplitude -/

section Amplitude

variable {gain_x10 : ℤ}

/-- The root of the amplitude is positive. -/
theorem rbjRoot_pos (gain : ℝ) : 0 < rbjRoot gain := by
  unfold rbjRoot
  positivity

/-- Its square is the amplitude. -/
theorem rbjRoot_sq (gain : ℝ) : rbjRoot gain ^ 2 = 10 ^ (gain / 40) := by
  unfold rbjRoot
  rw [← Real.rpow_natCast, ← Real.rpow_mul (by norm_num)]
  congr 1
  push_cast
  ring

/-- A power of the root is a power of ten. -/
theorem rbjRoot_pow (i : ℕ) : rbjRoot (((i : ℝ) - 240) / 10) ^ 800 * 10 ^ 240 = 10 ^ i := by
  unfold rbjRoot
  rw [← Real.rpow_natCast, ← Real.rpow_mul (by norm_num), ← Real.rpow_natCast, ← Real.rpow_natCast,
    ← Real.rpow_add (by norm_num)]
  congr 1
  push_cast
  ring

/-- `a` over `2^27` is an `n`-th root of `10 ^ (i - 240)`, but for `ρ` parts in `2^27`. -/
def RootNear (n ρ i a : ℕ) : Prop :=
  (2 ^ 27 - ρ) ^ n * 10 ^ i ≤ a ^ n * 10 ^ 240 ∧ a ^ n * 10 ^ 240 ≤ (2 ^ 27 + ρ) ^ n * 10 ^ i

/-- Whether an integer is near a root is a pair of comparisons. -/
instance (n ρ i a : ℕ) : Decidable (RootNear n ρ i a) := inferInstanceAs (Decidable (_ ∧ _))

/-- A number is as close to a root as its power is to the root's power. -/
theorem RootNear.abs_sub_le {n ρ i : ℕ} {a : ℤ} {x : ℝ} (h : RootNear n ρ i a.toNat) (ha : 0 ≤ a)
    (hn : n ≠ 0) (hx : 0 < x) (hpow : x ^ n * 10 ^ 240 = 10 ^ i) (hρ : ρ ≤ 2 ^ 27) :
    |(a : ℝ) - 2 ^ 27 * x| ≤ ρ * x := by
  obtain ⟨hlo, hhi⟩ := h
  have hcast : (a : ℝ) = (a.toNat : ℝ) := by exact_mod_cast (Int.toNat_of_nonneg ha).symm
  -- Both bounds are taken to the `n`-th power, where all is a whole number.
  have hlo' : ((2 ^ 27 - ρ : ℕ) : ℝ) ^ n * 10 ^ i ≤ (a : ℝ) ^ n * 10 ^ 240 := by
    rw [hcast]
    exact_mod_cast hlo
  have hhi' : (a : ℝ) ^ n * 10 ^ 240 ≤ ((2 ^ 27 + ρ : ℕ) : ℝ) ^ n * 10 ^ i := by
    rw [hcast]
    exact_mod_cast hhi
  have hten : (0 : ℝ) < 10 ^ 240 := by positivity
  have ha' : (0 : ℝ) ≤ a := by exact_mod_cast ha
  -- A root of the powers gives the bounds back.
  rw [← hpow, ← mul_assoc, ← mul_pow] at hlo' hhi'
  have h0 := le_of_pow_le_pow_left₀ hn ha' (le_of_mul_le_mul_right hlo' hten)
  have h1 := le_of_pow_le_pow_left₀ hn (by positivity) (le_of_mul_le_mul_right hhi' hten)
  rw [Nat.cast_sub hρ] at h0
  push_cast at h0 h1
  rw [abs_le]
  constructor <;> linarith

/-- The amplitude and its square root, for each of the gains. -/
theorem bfExp2_rootNear : ∀ i < 481,
    RootNear 400 20 i (bfExp2 (((i : ℕ) - 240 : ℤ) * 0x11021E)).toNat ∧
      RootNear 800 12 i (bfExp2 (((i : ℕ) - 240 : ℤ) * 0x8810F)).toNat := by
  decide +kernel

/-- The amplitude is computed to within 20 parts in `2^27`, its square root to within 12. -/
theorem bfExp2_near (h : -240 ≤ gain_x10 ∧ gain_x10 ≤ 240) :
    |(bfExp2 (gain_x10 * 0x11021E) : ℝ) - 2 ^ 27 * rbjRoot (gain_x10 / 10) ^ 2| ≤
        20 * rbjRoot (gain_x10 / 10) ^ 2 ∧
      |(bfExp2 (gain_x10 * 0x8810F) : ℝ) - 2 ^ 27 * rbjRoot (gain_x10 / 10)| ≤ 12 * rbjRoot (gain_x10 / 10) := by
  obtain ⟨⟨hA, -⟩, hs, -⟩ := bfExp2_gain_mem h
  -- The gains are tenths of a decibel, so that there are 481 of them to look up.
  obtain ⟨i, hi⟩ := Int.eq_ofNat_of_zero_le (show 0 ≤ gain_x10 + 240 by omega)
  obtain rfl : gain_x10 = (i : ℤ) - 240 := by omega
  have hcast : (((i : ℤ) - 240 : ℤ) : ℝ) = (i : ℝ) - 240 := by push_cast; rfl
  have hpow := rbjRoot_pow i
  have hroot := rbjRoot_pos (((i : ℝ) - 240) / 10)
  have hA0 : 0 ≤ bfExp2 (((i : ℤ) - 240) * 0x11021E) := by omega
  have hs0 : 0 ≤ bfExp2 (((i : ℤ) - 240) * 0x8810F) := by omega
  obtain ⟨hnearA, hnears⟩ := bfExp2_rootNear i (by omega)
  rw [hcast]
  generalize rbjRoot (((i : ℝ) - 240) / 10) = x at hpow hroot ⊢
  constructor
  · refine hnearA.abs_sub_le hA0 (by decide) (pow_pos hroot 2) ?_ (by decide)
    rwa [← pow_mul]
  · exact hnears.abs_sub_le hs0 (by decide) hroot hpow (by decide)

/-- The square root of an amplitude is between a half and two. -/
theorem rbjRoot_mem (h : -240 ≤ gain_x10 ∧ gain_x10 ≤ 240) :
    1 / 2 ≤ rbjRoot (gain_x10 / 10) ∧ rbjRoot (gain_x10 / 10) ≤ 1.99527 := by
  have hgain : (-240 : ℝ) ≤ gain_x10 ∧ (gain_x10 : ℝ) ≤ 240 := by exact_mod_cast h
  -- The tenth power of the root is a thousand at the largest gain.
  have hroot : ((10 : ℝ) ^ (3 / 10 : ℝ)) ^ 10 = 1000 := by
    rw [← Real.rpow_natCast, ← Real.rpow_mul (by norm_num)]
    norm_num
  have hinv : (10 : ℝ) ^ (-(3 / 10) : ℝ) = ((10 : ℝ) ^ (3 / 10 : ℝ))⁻¹ := Real.rpow_neg (by norm_num) _
  have hpos : (0 : ℝ) < 10 ^ (3 / 10 : ℝ) := by positivity
  have hle : (10 : ℝ) ^ (3 / 10 : ℝ) ≤ 1.99527 := by
    apply le_of_pow_le_pow_left₀ (n := 10) (by norm_num) (by norm_num)
    rw [hroot]
    norm_num
  unfold rbjRoot
  constructor
  · calc (1 / 2 : ℝ) ≤ ((10 : ℝ) ^ (3 / 10 : ℝ))⁻¹ := by
          rw [one_div]
          exact inv_anti₀ hpos (by linarith)
      _ = 10 ^ (-(3 / 10) : ℝ) := hinv.symm
      _ ≤ 10 ^ ((gain_x10 : ℝ) / 10 / 80) := Real.rpow_le_rpow_of_exponent_le (by norm_num) (by linarith)
  · exact (Real.rpow_le_rpow_of_exponent_le (by norm_num) (by linarith)).trans hle

end Amplitude

/-! ## The angle -/

section Angle

variable {freq_hz q100 fs : ℤ}

/-- The angle of a frequency is computed to within eight units. -/
theorem abs_eqAngle_sub_le (hf : 0 ≤ freq_hz ∧ freq_hz ≤ 20000) (hfs : 32000 ≤ fs) :
    |(eqAngle freq_hz fs : ℝ) - 2 ^ 27 * rbjAngle freq_hz fs| ≤ 7.3 := by
  have hpos : (0 : ℝ) < fs := by exact_mod_cast (by omega : 0 < fs)
  -- The quotient and the shift each round down, by less than one unit.
  have hquot : fs * (freq_hz * 2 ^ 27).tdiv fs ≤ freq_hz * 2 ^ 27 ∧
      freq_hz * 2 ^ 27 < fs * (freq_hz * 2 ^ 27).tdiv fs + fs := by
    have hmod := Int.mul_tdiv_add_tmod (freq_hz * 2 ^ 27) fs
    have hlt := Int.tmod_lt_of_pos (freq_hz * 2 ^ 27) (show 0 < fs by omega)
    have hnonneg := Int.tmod_nonneg fs (show 0 ≤ freq_hz * 2 ^ 27 by omega)
    constructor <;> omega
  unfold eqAngle BF_EQ_Q27 rbjAngle
  generalize (freq_hz * 2 ^ 27).tdiv fs = x at hquot ⊢
  have hshift : 2 ^ 27 * ((x * 0x3243F6A9) >>> (27 : ℕ)) ≤ x * 0x3243F6A9 ∧
      x * 0x3243F6A9 < 2 ^ 27 * ((x * 0x3243F6A9) >>> (27 : ℕ)) + 2 ^ 27 := by
    rw [Int.shiftRight_eq_div_pow]
    omega
  generalize (x * 0x3243F6A9) >>> (27 : ℕ) = e at hshift ⊢
  -- The exact quotient of the frequency and the rate, in units.
  obtain ⟨z, hz⟩ : ∃ z : ℝ, z * fs = freq_hz * 2 ^ 27 := ⟨freq_hz * 2 ^ 27 / fs, by field_simp⟩
  have hexact : 2 ^ 27 * (2 * pi * freq_hz / fs) = 2 * pi * z := by
    field_simp
    linear_combination -hz
  -- In real numbers: the quotient is at most one unit short.
  have hx0 : (fs : ℝ) * x ≤ fs * z := by
    rw [mul_comm _ z, hz]
    exact_mod_cast hquot.1
  have hx1 : (fs : ℝ) * z ≤ fs * (x + 1) := by
    rw [mul_comm _ z, hz, mul_add, mul_one]
    exact_mod_cast hquot.2.le
  have hxz := le_of_mul_le_mul_left hx0 hpos
  have hzx := le_of_mul_le_mul_left hx1 hpos
  have hz0 : 0 ≤ z := by
    have hnum : (0 : ℝ) ≤ z * fs := by
      rw [hz]
      exact_mod_cast (by omega : 0 ≤ freq_hz * 2 ^ 27)
    exact nonneg_of_mul_nonneg_left hnum hpos
  have hz1 : z ≤ 83886080 := by
    have hnum : (fs : ℝ) * z ≤ fs * 83886080 := by
      rw [mul_comm _ z, hz]
      exact_mod_cast (by omega : freq_hz * 2 ^ 27 ≤ fs * 83886080)
    exact le_of_mul_le_mul_left hnum hpos
  have he0 : (2 ^ 27 * e : ℝ) ≤ x * 0x3243F6A9 := by exact_mod_cast hshift.1
  have he1 : (x * 0x3243F6A9 : ℝ) ≤ 2 ^ 27 * e + 2 ^ 27 := by exact_mod_cast hshift.2.le
  -- With twenty digits of pi the two errors stay within the bound.
  have hpi : pi * z ≤ 3.14159265358979323847 * z ∧ 3.14159265358979323846 * z ≤ pi * z :=
    ⟨mul_le_mul_of_nonneg_right Real.pi_lt_d20.le hz0, mul_le_mul_of_nonneg_right Real.pi_gt_d20.le hz0⟩
  rw [hexact, abs_le]
  constructor <;> linarith

/-- The cosine of a band is computed to within 42 units. -/
theorem eqCos_near (hf : 0 ≤ freq_hz ∧ freq_hz ≤ 20000) (hfs : 32000 ≤ fs) :
    |((eqSincos (eqAngle freq_hz fs)).2 : ℝ) - 2 ^ 27 * cos (rbjAngle freq_hz fs)| ≤ 42 := by
  obtain ⟨-, h0, h1⟩ := eqAngle64_eq hf hfs
  have hangle := abs_eqAngle_sub_le hf hfs
  obtain ⟨hcos, -⟩ := parts_of_within (eqSincos_within h0 (by omega))
  generalize eqAngle freq_hz fs = w at *
  have hturn := Real.abs_cos_sub_cos_le (w / 2 ^ 27) (rbjAngle freq_hz fs)
  have hscale : 2 ^ 27 * |(w / 2 ^ 27 : ℝ) - rbjAngle freq_hz fs| ≤ 7.3 := by
    rw [← abs_of_pos (by positivity : (0 : ℝ) < 2 ^ 27), ← abs_mul,
      abs_of_pos (by positivity : (0 : ℝ) < 2 ^ 27)]
    rwa [mul_sub, mul_div_cancel₀ _ (by positivity)]
  rw [abs_le] at hcos hturn ⊢
  constructor <;> linarith

/-- The angle of a bandwidth is computed to within a unit and what the angle of the frequency is off. -/
theorem abs_bandwidth_sub_le {w : ℤ} {x : ℝ} (hw : |(w : ℝ) - 2 ^ 27 * x| ≤ 7.3) (h0 : 0 ≤ w) (hq : 0 < q100) :
    2 ^ 27 * |((if (w * 100 + q100).tdiv (2 * q100) > 0xC90FDAA then 0xC90FDAA
      else (w * 100 + q100).tdiv (2 * q100) : ℤ) / 2 ^ 27 : ℝ) - min (x / (2 * (q100 / 100))) (pi / 2)| ≤
      1 + 365 / q100 := by
  have hpos : (0 : ℝ) < q100 := by exact_mod_cast hq
  -- The quotient rounds to the nearest.
  have hquot : 2 * q100 * (w * 100 + q100).tdiv (2 * q100) ≤ w * 100 + q100 ∧
      w * 100 + q100 ≤ 2 * q100 * (w * 100 + q100).tdiv (2 * q100) + 2 * q100 := by
    have hmod := Int.mul_tdiv_add_tmod (w * 100 + q100) (2 * q100)
    have hlt := Int.tmod_lt_of_pos (w * 100 + q100) (show 0 < 2 * q100 by omega)
    have hnonneg := Int.tmod_nonneg (2 * q100) (show 0 ≤ w * 100 + q100 by omega)
    constructor <;> omega
  generalize (w * 100 + q100).tdiv (2 * q100) = u at hquot ⊢
  have hu0 : (2 * q100 * u : ℝ) ≤ w * 100 + q100 := by exact_mod_cast hquot.1
  have hu1 : (w * 100 + q100 : ℝ) ≤ 2 * q100 * u + 2 * q100 := by exact_mod_cast hquot.2
  -- Both the code and the reference cut the angle off at a quarter of a turn.
  have hmin : ((if u > 0xC90FDAA then 0xC90FDAA else u : ℤ) / 2 ^ 27 : ℝ) =
      min (u / 2 ^ 27 : ℝ) (0xC90FDAA / 2 ^ 27) := by
    rw [min_div_div_right (by positivity)]
    congr 1
    split_ifs with hlt
    · exact (min_eq_right (by exact_mod_cast hlt.le)).symm
    · exact (min_eq_left (by exact_mod_cast (not_lt.mp hlt))).symm
  -- The cut itself is within one unit, and below it the angle of the frequency is divided by the quality.
  have hhalf : 2 ^ 27 * |(0xC90FDAA / 2 ^ 27 : ℝ) - pi / 2| ≤ 1 + 365 / q100 := by
    have habs : |(0xC90FDAA / 2 ^ 27 : ℝ) - pi / 2| ≤ 1 / 2 ^ 27 := by
      rw [abs_le]
      constructor <;> linarith [Real.pi_gt_d20, Real.pi_lt_d20]
    have hrest : (0 : ℝ) ≤ 365 / q100 := by positivity
    linarith
  have hself : 2 ^ 27 * |(u / 2 ^ 27 : ℝ) - x / (2 * (q100 / 100))| ≤ 1 + 365 / q100 := by
    rw [← abs_of_pos (by positivity : (0 : ℝ) < 2 ^ 27), ← abs_mul,
      abs_of_pos (by positivity : (0 : ℝ) < 2 ^ 27)]
    have hsplit : 2 ^ 27 * ((u / 2 ^ 27 : ℝ) - x / (2 * (q100 / 100))) =
        (2 * q100 * u - 100 * (2 ^ 27 * x)) / (2 * q100) := by
      field_simp
    rw [abs_le] at hw
    rw [hsplit, abs_div, abs_of_pos (by positivity : (0 : ℝ) < 2 * q100), div_le_iff₀ (by positivity)]
    have hright : (1 + 365 / q100) * (2 * q100 : ℝ) = 2 * q100 + 730 := by
      field_simp
      ring
    rw [hright, abs_le]
    constructor <;> linarith
  rw [hmin]
  calc 2 ^ 27 * |min (u / 2 ^ 27 : ℝ) (0xC90FDAA / 2 ^ 27) - min (x / (2 * (q100 / 100))) (pi / 2)|
      ≤ 2 ^ 27 * max |(u / 2 ^ 27 : ℝ) - x / (2 * (q100 / 100))| |(0xC90FDAA / 2 ^ 27 : ℝ) - pi / 2| :=
        mul_le_mul_of_nonneg_left (abs_min_sub_min_le_max _ _ _ _) (by positivity)
    _ ≤ 1 + 365 / q100 := by
        rw [mul_max_of_nonneg _ _ (by positivity)]
        exact max_le hself hhalf

/-- The bandwidth term is computed to within 34 units, and a few more for a low Q. -/
theorem eqAlpha_near (hf : 0 ≤ freq_hz ∧ freq_hz ≤ 20000) (hfs : 32000 ≤ fs) (hq : 0 < q100) :
    |(eqAlpha (eqAngle freq_hz fs) q100 : ℝ) - 2 ^ 27 * rbjAlpha (rbjAngle freq_hz fs) (q100 / 100)| ≤
      (34 + 365 / q100 : ℝ) := by
  obtain ⟨-, h0, h1⟩ := eqAngle64_eq hf hfs
  have hwidth := abs_bandwidth_sub_le (abs_eqAngle_sub_le hf hfs) h0 hq
  have hnonneg : 0 ≤ (eqAngle freq_hz fs * 100 + q100).tdiv (2 * q100) := Int.tdiv_nonneg (by omega) (by omega)
  unfold eqAlpha rbjAlpha
  dsimp only
  generalize hv : (if (eqAngle freq_hz fs * 100 + q100).tdiv (2 * q100) > 0xC90FDAA then 0xC90FDAA
    else (eqAngle freq_hz fs * 100 + q100).tdiv (2 * q100)) = v at hwidth ⊢
  have hv' : 0 ≤ v ∧ v ≤ 0xC90FDAA := by split_ifs at hv <;> omega
  obtain ⟨-, hsin⟩ := parts_of_within (bfSincos_within hv'.1 hv'.2)
  have hturn := Real.abs_sin_sub_sin_le (v / 2 ^ 27)
    (min (rbjAngle freq_hz fs / (2 * (q100 / 100))) (pi / 2))
  rw [abs_le] at hsin hturn ⊢
  constructor <;> linarith

end Angle

/-! ## The bandwidth term above a quarter of the rate -/

section Bandwidth

variable {w Q : ℝ}

/-- Alpha lies between 0 and 1. -/
theorem rbjAlpha_mem (hw : 0 ≤ w) (hQ : 0 < Q) : 0 ≤ rbjAlpha w Q ∧ rbjAlpha w Q ≤ 1 := by
  refine ⟨Real.sin_nonneg_of_nonneg_of_le_pi ?_ ?_, Real.sin_le_one _⟩
  · exact le_min (by positivity) (by linarith [Real.pi_pos])
  · exact (min_le_right _ _).trans (by linarith [Real.pi_pos])

/-- A band of a low Q is as wide as it gets. -/
theorem rbjAlpha_wide (hw : pi / 2 ≤ w) (hQ : 0 < Q ∧ Q ≤ 1 / 2) : rbjAlpha w Q = 1 := by
  have hangle : pi / 2 ≤ w / (2 * Q) := by
    rw [le_div_iff₀ (by linarith)]
    nlinarith [Real.pi_pos]
  unfold rbjAlpha
  rw [min_eq_right hangle, Real.sin_pi_div_two]

/-- One of a higher Q is at least as wide as the Q asks for. -/
theorem rbjAlpha_ge_inv (hw : pi / 2 ≤ w) (hQ : 1 / 2 ≤ Q) : 1 / (2 * Q) ≤ rbjAlpha w Q := by
  have hpi := Real.pi_pos
  have hle : pi / 2 * (1 / (2 * Q)) ≤ min (w / (2 * Q)) (pi / 2) := by
    apply le_min
    · rw [mul_one_div]
      exact div_le_div_of_nonneg_right hw (by linarith)
    · refine mul_le_of_le_one_right (by linarith) ?_
      rw [div_le_one (by linarith)]
      linarith
  have hzero : 0 ≤ min (w / (2 * Q)) (pi / 2) := le_trans (by positivity) hle
  calc 1 / (2 * Q) = 2 / pi * (pi / 2 * (1 / (2 * Q))) := by field_simp
    _ ≤ 2 / pi * min (w / (2 * Q)) (pi / 2) := mul_le_mul_of_nonneg_left hle (by positivity)
    _ ≤ rbjAlpha w Q := Real.mul_le_sin hzero (min_le_right _ _)

/-- The narrowest band there is, up to five quarters of half the rate: the closer to half the rate, the
wider. -/
theorem rbjAlpha_ge (hw : pi / 2 ≤ w ∧ w ≤ pi + pi / 4) (hQ : 0 < Q ∧ Q ≤ 10) :
    0.147 - 0.41 * (1 + cos w) ≤ rbjAlpha w Q := by
  have hgt := Real.pi_gt_d4
  have hlt := Real.pi_lt_d4
  have hsine : 0.0496 * w ≤ sin (w / 20) := by
    have hcube := Real.sin_gt_sub_cube (x := w / 20) (by linarith)
    have hsq : (w / 20) ^ 2 ≤ 0.0387 :=
      (pow_le_pow_left₀ (by linarith) (show w / 20 ≤ 0.1964 by linarith) 2).trans (by norm_num)
    nlinarith
  have hmono : sin (w / 20) ≤ rbjAlpha w Q := by
    apply Real.sin_le_sin_of_le_of_le_pi_div_two (by linarith) (min_le_right _ _)
    refine le_min ?_ (by linarith)
    exact div_le_div_of_nonneg_left (by linarith) (by linarith) (by linarith)
  have hcos : 0.2026 * (pi - w) ^ 2 ≤ 1 + cos w := by
    have hbound := Real.cos_le_one_sub_mul_cos_sq (x := pi - w) (by
      rw [abs_le]
      constructor <;> linarith)
    rw [Real.cos_pi_sub] at hbound
    have hslope : 0.2026 * (pi - w) ^ 2 ≤ 2 / pi ^ 2 * (pi - w) ^ 2 := by
      apply mul_le_mul_of_nonneg_right _ (sq_nonneg _)
      rw [le_div_iff₀ (by positivity)]
      nlinarith
    linarith
  -- A parabola in the distance to half the rate.
  nlinarith [sq_nonneg (pi - w - 0.3)]

end Bandwidth

end BabyfacePro
