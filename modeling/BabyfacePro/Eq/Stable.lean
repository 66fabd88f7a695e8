import BabyfacePro.Eq.Bell

/-!
# Stability of a band

A biquad's poles are inside the unit circle when its denominator is positive at 0 Hz and at half the sample
rate, and its last coefficient is below one. Each of the three is a difference of a few units at the ends
of the spectrum, where the cosine is close to one: the rounding of the coefficients does not lower it, and
that of the words takes less than one unit off. So a band is stable when its cosine is at least four units
away from one, which `bf_sincos` gives for every angle but zero.
-/

namespace BabyfacePro

open Checked (abs_mul_le abs_tdiv_le)

/-- Both poles of the words' denominator are inside the unit circle. -/
def Stable (w : Fin 5 → ℤ) : Prop := |w 1| < 2 ^ 27 ∧ |w 0| < 2 ^ 27 + w 1

/-- Stability of integer words is a pair of comparisons. -/
instance (w : Fin 5 → ℤ) : Decidable (Stable w) := inferInstanceAs (Decidable (_ ∧ _))

/-! ## The words of a denominator -/

/-- A word is its quotient, off by less than one unit towards zero. -/
theorem WordQuot.trunc_cases {num den w : ℤ} (h : WordQuot num den)
    (hw : w = toInt32 ((num * BF_EQ_Q27 + den.tdiv 2).tdiv den)) :
    (0 ≤ num * 2 ^ 27 + den.tdiv 2 ∧ 0 ≤ w ∧ den * w ≤ num * 2 ^ 27 + den.tdiv 2 ∧
        num * 2 ^ 27 + den.tdiv 2 < den * w + den) ∨
      (num * 2 ^ 27 + den.tdiv 2 < 0 ∧ w ≤ 0 ∧ num * 2 ^ 27 + den.tdiv 2 ≤ den * w) := by
  have hpos := h.pos.1
  rw [h.toInt32_eq] at hw
  unfold BF_EQ_Q27 at hw
  have hmod := Int.mul_tdiv_add_tmod (num * 2 ^ 27 + den.tdiv 2) den
  have hlt := Int.tmod_lt_of_pos (num * 2 ^ 27 + den.tdiv 2) hpos
  rw [← hw] at hmod
  -- The quotient rounds towards zero, so that the two signs are different cases.
  obtain hneg | hnonneg := lt_or_ge (num * 2 ^ 27 + den.tdiv 2) 0
  · right
    have hrest := Int.tmod_nonneg den (show 0 ≤ -(num * 2 ^ 27 + den.tdiv 2) by omega)
    rw [Int.neg_tmod] at hrest
    have hquot := Int.tdiv_nonneg (show 0 ≤ -(num * 2 ^ 27 + den.tdiv 2) by omega) hpos.le
    rw [Int.neg_tdiv, ← hw] at hquot
    have hsign : w ≤ 0 := by omega
    exact ⟨hneg, hsign, by omega⟩
  · left
    have hrest := Int.tmod_nonneg den hnonneg
    have hsign : 0 ≤ w := by
      rw [hw]
      exact Int.tdiv_nonneg hnonneg hpos.le
    exact ⟨hnonneg, hsign, by omega, by omega⟩

/-- The margins that a biquad is stable by. At the end of the spectrum where its denominator is the
smaller, the sum of the coefficients decides. -/
structure Biquad.Margins (k : Biquad) : Prop where
  last : k.a0 ≤ 2 ^ 27 * (k.a0 - k.a2)
  first : 0 < k.a0 + k.a2
  dc : k.a1 < 0 → 0 < k.a0 + k.a1 + k.a2
  nyquist : 0 < k.a1 → k.a0 ≤ 2 ^ 27 * (k.a0 - k.a1 + k.a2)

/-- Coefficients with margins have stable words. -/
theorem Biquad.Margins.stable {k : Biquad} (h : k.Margins) (hin : k.InRange) : Stable k.words := by
  obtain ⟨hlast, hfirst, hdc, hnyquist⟩ := h
  have hpos := hin.a1.pos.1
  have hhalf := half_mem hpos
  have h0 := hin.a1.trunc_cases (w := k.words 0) rfl
  have h1 := hin.a2.trunc_cases (w := k.words 1) rfl
  generalize k.words = w at h0 h1 ⊢
  -- What a word is times the leading coefficient is enough to know its sign.
  have hsign : ∀ x : ℤ, 0 < k.a0 * x → 0 < x := fun x hx => (mul_pos_iff_of_pos_left hpos).mp hx
  -- The last word lies strictly between the units, by the margins of the coefficients.
  have hupper : 0 < 2 ^ 27 - w 1 := by
    rcases h1 with ⟨-, -, hw1, -⟩ | ⟨-, hw1, -⟩
    · apply hsign
      rw [mul_sub]
      omega
    · omega
  have hlower : 0 < 2 ^ 27 + w 1 := by
    rcases h1 with ⟨-, hw1, -⟩ | ⟨-, -, hw1⟩
    · omega
    · apply hsign
      rw [mul_add]
      omega
  -- The response at 0 Hz and at half the rate has the sign of the leading coefficient.
  have hplus : 0 < 2 ^ 27 + w 1 + w 0 := by
    rcases h0 with ⟨-, hw0, -⟩ | ⟨hneg, -, hw0⟩
    · omega
    · have hsum := hdc (by omega)
      apply hsign
      rw [mul_add, mul_add]
      omega
  have hminus : 0 < 2 ^ 27 + w 1 - w 0 := by
    rcases h0 with ⟨-, -, hw0, -⟩ | ⟨-, hw0, -⟩
    · obtain hpositive | hflat := lt_or_ge 0 k.a1
      · have hsum := hnyquist hpositive
        apply hsign
        rw [mul_sub, mul_add]
        omega
      · -- Half a unit of the rounding is all that is left of the word.
        have hzero : 0 < 1 - w 0 := by
          apply hsign
          rw [mul_sub]
          omega
        omega
    · omega
  unfold Stable
  rw [abs_lt, abs_lt]
  omega

/-! ## The margins of a band's coefficients -/

section Margins

variable {c alpha A sq : ℤ}

/-- A bell's denominator is `2 - 2 * cos` at 0 Hz, and `2 + 2 * cos` at half the rate. -/
theorem eqBell_margins (h : BandTerms c alpha A sq) (halpha : 12 ≤ alpha)
    (hc : -(2 ^ 27 - 3) ≤ c ∧ c ≤ 2 ^ 27 - 1) : (eqBell c alpha A).Margins := by
  have hA := h.amp
  have hhalf := half_mem (show 0 < A by omega)
  have hquot : 3 ≤ (alpha * BF_EQ_Q27 + A.tdiv 2).tdiv A ∧
      (alpha * BF_EQ_Q27 + A.tdiv 2).tdiv A ≤ 540000000 := by
    have halpha' := h.alpha
    have habs : |alpha * BF_EQ_Q27 + A.tdiv 2| ≤ 540000000 * A := by
      unfold BF_EQ_Q27
      exact abs_le.mpr ⟨by omega, by omega⟩
    refine ⟨Int.le_tdiv_of_mul_le (by omega) ?_, (le_abs_self _).trans (abs_tdiv_le (by omega) habs)⟩
    unfold BF_EQ_Q27
    omega
  unfold eqBell
  generalize (alpha * BF_EQ_Q27 + A.tdiv 2).tdiv A = d at hquot ⊢
  unfold BF_EQ_Q27
  constructor <;> dsimp only <;> omega

/-- What is left of a shelf's denominator at the end of the spectrum where it is the smaller: the
rounding of the product `p` keeps it at least a half below the exact value. -/
theorem shelf_margins {p q ab : ℤ} {k : Biquad} (hA : 33713973 ≤ A ∧ A ≤ 534330320)
    (hp : -(|A - 2 ^ 27| + 133) ≤ p ∧ p ≤ |A - 2 ^ 27| + 133) (hc : -(2 ^ 27 - 4) ≤ c ∧ c ≤ 2 ^ 27 - 1)
    (hround : 2 * ((A - 2 ^ 27) * c) - 2 ^ 27 ≤ 2 ^ 28 * p) (hq : q = p + 2 * c)
    (hab : 6 ≤ ab ∧ ab ≤ 540000000) (hsmall : A ≤ 50331648 → ab ≤ 2 ^ 28) (ha0 : k.a0 = A + 2 ^ 27 + p + ab)
    (ha1 : k.a1 = -2 * (A - 2 ^ 27 + q)) (ha2 : k.a2 = A + 2 ^ 27 + p - ab) : k.Margins := by
  have hm : |A - 2 ^ 27| = A - 2 ^ 27 ∧ 2 ^ 27 ≤ A ∨ |A - 2 ^ 27| = -(A - 2 ^ 27) ∧ A ≤ 2 ^ 27 := by
    obtain h | h := le_total (2 ^ 27) A
    · exact .inl ⟨abs_of_nonneg (by omega), h⟩
    · exact .inr ⟨abs_of_nonpos (by omega), h⟩
  -- The amplitude times the distance of the cosine from `-1`.
  have hprod : A * 4 ≤ A * (2 ^ 27 + c) := mul_le_mul_of_nonneg_left (by omega) (by omega)
  have hexpand : A * (2 ^ 27 + c) = (A - 2 ^ 27) * c + 2 ^ 27 * A + 2 ^ 27 * c := by ring
  refine ⟨?_, ?_, fun _ => ?_, fun _ => ?_⟩
  · rw [ha0, ha2]
    omega
  · rw [ha0, ha2]
    omega
  · rw [ha0, ha1, ha2]
    omega
  · rw [ha0, ha1, ha2]
    omega

/-- A shelf has them, away from the ends of the band. -/
theorem eqShelf_margins (low : Bool) (h : BandTerms c alpha A sq) (halpha : 12 ≤ alpha)
    (hc : -(2 ^ 27 - 4) ≤ c ∧ c ≤ 2 ^ 27 - 4) (hsmall : A ≤ 50331648 → sq ≤ 100000000) :
    (eqShelf low c alpha A sq).Margins := by
  have hp := h.shelf.round_cp0
  have hround := round27_mem ((A - 2 ^ 27) * c)
  have hroundab := round27_mem (2 * sq * alpha)
  have hq := round27_shelf A c
  have hab : 6 ≤ round27 (2 * sq * alpha) ∧ round27 (2 * sq * alpha) ≤ 540000000 := by
    have hmul : 67268215 * 12 ≤ sq * alpha := mul_le_mul h.root.1 halpha (by norm_num) (by linarith [h.root.1])
    have hassoc : 2 * sq * alpha = 2 * (sq * alpha) := by ring
    exact ⟨by omega, h.shelf.round_ab.2⟩
  have hab' : A ≤ 50331648 → round27 (2 * sq * alpha) ≤ 2 ^ 28 := by
    intro hA
    have hmul : sq * alpha ≤ 100000000 * (2 ^ 27 + 43) :=
      mul_le_mul (hsmall hA) h.alpha.2 (by omega) (by norm_num)
    have hassoc : 2 * sq * alpha = 2 * (sq * alpha) := by ring
    omega
  unfold eqShelf BF_EQ_Q27
  dsimp only
  cases low with
  | true =>
    refine shelf_margins h.amp hp (c := c) (by omega) (by omega) hq hab hab' rfl rfl rfl
  | false =>
    -- The high shelf is the low one at the opposite cosine.
    have hneg : (A - 2 ^ 27) * -c = -((A - 2 ^ 27) * c) := by ring
    refine shelf_margins (p := -round27 ((A - 2 ^ 27) * c)) (q := -round27 ((A + 2 ^ 27) * c)) (c := -c) h.amp
      (by omega) (by omega) (by omega) (by omega) hab hab' ?_ ?_ ?_
    all_goals simp only [← sub_eq_add_neg]
    all_goals rfl

end Margins

/-! ## Angles other than zero -/

/-- The angle of a band is far from zero and from `pi`, but for the lowest frequencies and for those about
half of 32 kHz. -/
theorem eqAngle_far {f : ℤ} (hf : 41 ≤ f ∧ f ≤ 20000) {r : BfRate} (hr : r ∈ bfRates) :
    (179000 ≤ eqAngle f r.rate ∧ (eqAngle f r.rate ≤ 0x1921FB54 - 179000 ∨
        0x1921FB54 + 179000 ≤ eqAngle f r.rate ∧ eqAngle f r.rate ≤ 527071785)) ∨
      r.rate = 32000 ∧ 15994 ≤ f ∧ f ≤ 16006 := by
  have hquot : ∀ fs : ℤ, (f * 2 ^ 27).tdiv fs = f * 2 ^ 27 / fs := fun fs =>
    Int.tdiv_eq_ediv_of_nonneg (by omega)
  unfold eqAngle BF_EQ_Q27
  rw [hquot, Int.shiftRight_eq_div_pow]
  simp only [bfRates, List.mem_cons, List.not_mem_nil, or_false] at hr
  rcases hr with rfl | rfl | rfl | rfl | rfl | rfl | rfl | rfl | rfl <;> dsimp only <;> omega

/-- A cosine is at least 48 units of 27 bits away from one, 179000 units of the angle away from zero. -/
theorem cos_far {x : ℝ} (h0 : 179000 ≤ 2 ^ 27 * |x| + 1) (h1 : |x| ≤ Real.pi) :
    2 ^ 27 * Real.cos x ≤ 2 ^ 27 - 48 := by
  have hcos := Real.cos_le_one_sub_mul_cos_sq h1
  have hpi : Real.pi ^ 2 ≤ 9.8697 := by
    have := Real.pi_lt_d20
    nlinarith [Real.pi_pos]
  have hsq : (178999 / 2 ^ 27) ^ 2 ≤ x ^ 2 := by
    rw [← sq_abs x]
    apply pow_le_pow_left₀ (by norm_num)
    rw [div_le_iff₀ (by norm_num)]
    linarith
  have hpos : 0 < Real.pi ^ 2 := by positivity
  have hmul : 48 / 2 ^ 27 ≤ 2 / Real.pi ^ 2 * x ^ 2 := by
    calc (48 : ℝ) / 2 ^ 27 ≤ 2 / 9.8697 * (178999 / 2 ^ 27) ^ 2 := by norm_num
      _ ≤ 2 / Real.pi ^ 2 * (178999 / 2 ^ 27) ^ 2 := by gcongr
      _ ≤ 2 / Real.pi ^ 2 * x ^ 2 := by gcongr
  linarith

/-- So the computed cosine of such an angle is four units away from one. -/
theorem eqSincos_far {w0 : ℤ} (h0 : 179000 ≤ w0) (h1 : w0 ≤ 527071785)
    (h2 : w0 ≤ 0x1921FB54 - 179000 ∨ 0x1921FB54 + 179000 ≤ w0) :
    -(2 ^ 27 - 4) ≤ (eqSincos w0).2 ∧ (eqSincos w0).2 ≤ 2 ^ 27 - 4 := by
  obtain ⟨hcos, -⟩ := abs_parts_le (eqSincos_near (show 0 ≤ w0 by omega) (by omega))
  rw [abs_le] at hcos
  have hpi := abs_le.mp abs_pi_sub_le
  have h0' : (179000 : ℝ) ≤ w0 := by exact_mod_cast h0
  have h1' : (w0 : ℝ) ≤ 527071785 := by exact_mod_cast h1
  have hgt := Real.pi_gt_d20
  have hx : 0 ≤ (w0 / 2 ^ 27 : ℝ) ∧ (w0 / 2 ^ 27 : ℝ) ≤ Real.pi + Real.pi / 2 := by
    constructor
    · positivity
    · linarith
  have hscale : 2 ^ 27 * (w0 / 2 ^ 27 : ℝ) = w0 := by ring
  -- Below a quarter of a turn past pi the cosine is far from one.
  have hupper : 2 ^ 27 * Real.cos (w0 / 2 ^ 27) ≤ 2 ^ 27 - 48 := by
    obtain hle | hge := le_total (w0 / 2 ^ 27 : ℝ) Real.pi
    · refine cos_far ?_ ?_
      · rw [abs_of_nonneg hx.1, hscale]
        linarith
      · rwa [abs_of_nonneg hx.1]
    · have hneg : Real.cos (w0 / 2 ^ 27) ≤ 0 := by
        apply Real.cos_nonpos_of_pi_div_two_le_of_le _ hx.2
        linarith
      linarith
  -- Its negative is the cosine of the angle less pi.
  have hlower : -(2 ^ 27 * Real.cos (w0 / 2 ^ 27)) ≤ 2 ^ 27 - 48 := by
    have hturn : Real.cos (w0 / 2 ^ 27 - Real.pi) = -Real.cos (w0 / 2 ^ 27) := Real.cos_sub_pi _
    rw [← mul_neg, ← hturn]
    refine cos_far ?_ ?_
    · push_cast at hpi
      obtain hbelow | habove := h2
      · have hbelow' : (w0 : ℝ) ≤ 0x1921FB54 - 179000 := by exact_mod_cast hbelow
        have habs := neg_le_abs (w0 / 2 ^ 27 - Real.pi)
        linarith
      · have habove' : (0x1921FB54 + 179000 : ℝ) ≤ w0 := by exact_mod_cast habove
        have habs := le_abs_self (w0 / 2 ^ 27 - Real.pi)
        linarith
    · rw [abs_le]
      constructor <;> linarith
  have hc0 : (-(2 ^ 27 - 4) : ℝ) ≤ (eqSincos w0).2 := by linarith
  have hc1 : ((eqSincos w0).2 : ℝ) ≤ 2 ^ 27 - 4 := by linarith
  exact ⟨by exact_mod_cast hc0, by exact_mod_cast hc1⟩

/-- The lowest frequencies, and those about half of 32 kHz. -/
theorem eqSincos_low : ∀ r ∈ bfRates, ∀ f < 41, f ≠ 0 →
    -(2 ^ 27 - 4) ≤ (eqSincos (eqAngle (f : ℕ) r.rate)).2 ∧
      (eqSincos (eqAngle (f : ℕ) r.rate)).2 ≤ 2 ^ 27 - 4 := by decide +kernel

/-- The cosines near half the sample rate of 32 kHz. -/
theorem eqSincos_nyquist : ∀ i < 13, i ≠ 6 →
    -(2 ^ 27 - 4) ≤ (eqSincos (eqAngle ((i : ℕ) + 15994) (32000 : ℕ))).2 ∧
      (eqSincos (eqAngle ((i : ℕ) + 15994) (32000 : ℕ))).2 ≤ 2 ^ 27 - 4 := by decide +kernel

/-- The cosine of a band is four units away from one, at every frequency but 0 Hz and half the rate. -/
theorem bandCos_le {f : ℤ} (hf : 1 ≤ f ∧ f ≤ 20000) {r : BfRate} (hr : r ∈ bfRates) (hne : 2 * f ≠ r.rate) :
    -(2 ^ 27 - 4) ≤ (eqSincos (eqAngle f r.rate)).2 ∧ (eqSincos (eqAngle f r.rate)).2 ≤ 2 ^ 27 - 4 := by
  obtain ⟨n, rfl⟩ := Int.eq_ofNat_of_zero_le (show 0 ≤ f by omega)
  obtain hlow | hhigh := lt_or_ge n 41
  · exact eqSincos_low r hr n hlow (by omega)
  · obtain ⟨h0, hfar⟩ | ⟨hrate, hlo, hhi⟩ := eqAngle_far ⟨by omega, hf.2⟩ hr
    · exact eqSincos_far h0 (by omega) (hfar.imp_right And.left)
    · obtain ⟨i, rfl⟩ := Nat.exists_eq_add_of_le' (show 15994 ≤ n by omega)
      have hi := eqSincos_nyquist i (by omega) (by omega)
      rw [hrate]
      exact_mod_cast hi

/-- The bandwidth term of a band is positive, at every frequency but 0 Hz. -/
theorem bandAlpha_ge {f q : ℤ} (hf : 1 ≤ f ∧ f ≤ 20000) (hq : 5 ≤ q ∧ q ≤ 1000) {r : BfRate}
    (hr : r ∈ bfRates) : 12 ≤ eqAlpha (eqAngle f r.rate) q := by
  -- A frequency of 1 Hz already has an angle, at the highest rate too.
  have hangle : 4391 ≤ eqAngle f r.rate := by
    have hquot : ∀ fs : ℤ, (f * 2 ^ 27).tdiv fs = f * 2 ^ 27 / fs := fun fs =>
      Int.tdiv_eq_ediv_of_nonneg (by omega)
    unfold eqAngle BF_EQ_Q27
    rw [hquot, Int.shiftRight_eq_div_pow]
    simp only [bfRates, List.mem_cons, List.not_mem_nil, or_false] at hr
    rcases hr with rfl | rfl | rfl | rfl | rfl | rfl | rfl | rfl | rfl <;> dsimp only <;> omega
  have hu : 219 ≤ (eqAngle f r.rate * 100 + q).tdiv (2 * q) :=
    Int.le_tdiv_of_mul_le (by omega) (by omega)
  unfold eqAlpha
  dsimp only
  generalize hv : (if (eqAngle f r.rate * 100 + q).tdiv (2 * q) > 0xC90FDAA then 0xC90FDAA
    else (eqAngle f r.rate * 100 + q).tdiv (2 * q)) = v
  have hv' : 219 ≤ v ∧ v ≤ 0xC90FDAA := by split_ifs at hv <;> omega
  -- The code's sine is near the real one, which lies above its chord.
  obtain ⟨-, hsin⟩ := abs_parts_le (bfSincos_near (show 0 ≤ v by omega) hv'.2)
  rw [abs_le] at hsin
  have h0 : (219 : ℝ) ≤ v := by exact_mod_cast hv'.1
  have h1 : (v : ℝ) ≤ 0xC90FDAA := by exact_mod_cast hv'.2
  have hgt := Real.pi_gt_d20
  have hjordan := Real.mul_le_sin (show 0 ≤ (v / 2 ^ 27 : ℝ) by positivity) (by linarith)
  have hslope : 1 / 2 * (v / 2 ^ 27 : ℝ) ≤ 2 / Real.pi * (v / 2 ^ 27) := by
    apply mul_le_mul_of_nonneg_right _ (by positivity)
    rw [div_le_div_iff₀ (by norm_num) Real.pi_pos]
    linarith [Real.pi_le_four]
  have hsine : (12 : ℝ) ≤ (bfSincos v).1 := by linarith
  exact_mod_cast hsine

/-! ## A band at 0 Hz -/

/-- The gains at which a low shelf at 0 Hz is stable: there the rounding of the words makes up for a cosine
above one. -/
def RestGain (g : ℤ) : Prop :=
  (146 ≤ g ∧ g ≤ 149) ∨ (157 ≤ g ∧ g ≤ 162) ∨ g = 174 ∨ (206 ≤ g ∧ g ≤ 213) ∨ (216 ≤ g ∧ g ≤ 230) ∨
    (233 ≤ g ∧ g ≤ 240)

/-- Whether a gain is one of the listed ones. -/
instance (g : ℤ) : Decidable (RestGain g) := inferInstanceAs (Decidable (_ ∨ _))

/-- At 0 Hz neither the Q nor the rate matters. -/
theorem bfEqBandWords_zero {type q g fs : ℤ} (hq : 0 < q) :
    bfEqBandWords type 0 q g fs = bfEqBandWords type 0 100 g 48000 := by
  have hangle : ∀ fs : ℤ, eqAngle 0 fs = 0 := fun fs => by
    unfold eqAngle
    rw [zero_mul, Int.zero_tdiv]
    rfl
  have halpha : ∀ q : ℤ, 0 < q → eqAlpha 0 q = (bfSincos 0).1 := fun q hq => by
    have hquot : (0 * 100 + q).tdiv (2 * q) = 0 := Int.tdiv_eq_zero_of_lt (by omega) (by omega)
    unfold eqAlpha
    rw [hquot]
    rfl
  unfold bfEqBandWords
  rw [hangle, hangle]
  dsimp only
  rw [halpha q hq, halpha 100 (by norm_num)]
  have hoff : (type = 0 ∨ g = 0 ∨ q ≤ 0) ↔ (type = 0 ∨ g = 0 ∨ (100 : ℤ) ≤ 0) := by
    constructor <;> omega
  simp only [hoff]

/-- A band at 0 Hz is stable if and only if it is a low shelf with one of the listed gains. -/
theorem stable_zero_iff {type q g fs : ℤ} (ht : 1 ≤ type ∧ type ≤ 3) (hq : 0 < q) (hg : -240 ≤ g ∧ g ≤ 240)
    (hne : g ≠ 0) : Stable (bfEqBandWords type 0 q g fs) ↔ type = 2 ∧ RestGain g := by
  have hbell : ∀ i < 481, i ≠ 240 → ¬ Stable (bfEqBandWords 1 0 100 ((i : ℕ) - 240 : ℤ) 48000) := by
    decide +kernel
  have hlow : ∀ i < 481, i ≠ 240 → (Stable (bfEqBandWords 2 0 100 ((i : ℕ) - 240 : ℤ) 48000) ↔
      RestGain ((i : ℕ) - 240 : ℤ)) := by decide +kernel
  have hhigh : ∀ i < 481, i ≠ 240 → ¬ Stable (bfEqBandWords 3 0 100 ((i : ℕ) - 240 : ℤ) 48000) := by
    decide +kernel
  obtain ⟨i, hi⟩ := Int.eq_ofNat_of_zero_le (show 0 ≤ g + 240 by omega)
  obtain rfl : g = (i : ℤ) - 240 := by omega
  have hlt : i < 481 := by omega
  have hne' : i ≠ 240 := by omega
  rw [bfEqBandWords_zero hq]
  obtain rfl | rfl | rfl : type = 1 ∨ type = 2 ∨ type = 3 := by omega
  · simpa using hbell i hlt hne'
  · simpa using hlow i hlt hne'
  · simpa using hhigh i hlt hne'

/-! ## Every band -/

/-- A low amplitude has a low square root. -/
theorem bfExp2_small {g : ℤ} (h : -240 ≤ g ∧ g ≤ 240) :
    bfExp2 (g * 0x11021E) ≤ 50331648 → bfExp2 (g * 0x8810F) ≤ 100000000 := by
  have hall : ∀ i < 481, bfExp2 (((i : ℕ) - 240 : ℤ) * 0x11021E) ≤ 50331648 →
      bfExp2 (((i : ℕ) - 240 : ℤ) * 0x8810F) ≤ 100000000 := by decide +kernel
  obtain ⟨i, hi⟩ := Int.eq_ofNat_of_zero_le (show 0 ≤ g + 240 by omega)
  obtain rfl : g = (i : ℤ) - 240 := by omega
  exact hall i (by omega)

/-- A band at another frequency than 0 Hz and half the rate is stable. -/
theorem bfEqBandWords_stable {type f q g : ℤ} (ht : 1 ≤ type ∧ type ≤ 3) (h : BandAdmits f q g) (hg : g ≠ 0)
    (hf : 1 ≤ f) {r : BfRate} (hr : r ∈ bfRates) (hne : 2 * f ≠ r.rate) :
    Stable (bfEqBandWords type f q g r.rate) := by
  have hq := h.q
  have hterms := h.terms (rate_ge hr)
  have hcos := bandCos_le ⟨hf, h.freq.2⟩ hr hne
  have halpha := bandAlpha_ge ⟨hf, h.freq.2⟩ hq hr
  unfold bfEqBandWords
  rw [if_neg (by omega)]
  dsimp only
  split_ifs
  · exact (eqBell_margins hterms halpha ⟨by omega, by omega⟩).stable (eqBell64_eq hterms).2
  · exact (eqShelf_margins _ hterms halpha hcos (bfExp2_small h.gain)).stable (eqShelf_inRange _ hterms)

/-- A band is stable at every frequency but 0 Hz and half the sample rate, and at 0 Hz exactly when it is a
low shelf with one of the gains whose rounding makes up for it. -/
theorem band_stable {type f q g : ℤ} (ht : 1 ≤ type ∧ type ≤ 3) (h : BandAdmits f q g) (hg : g ≠ 0)
    {r : BfRate} (hr : r ∈ bfRates) (hne : 2 * f ≠ r.rate) :
    Stable (bfEqBandWords type f q g r.rate) ↔ 1 ≤ f ∨ type = 2 ∧ RestGain g := by
  have hfreq := h.freq
  obtain hpos | rfl : 1 ≤ f ∨ f = 0 := by omega
  · exact iff_of_true (bfEqBandWords_stable ht h hg hpos hr hne) (.inl hpos)
  · rw [stable_zero_iff ht (by linarith [h.q]) h.gain hg]
    constructor
    · exact .inr
    · rintro (hone | hrest)
      · omega
      · exact hrest

/-- A narrow bell at 20 kHz, at 32 kHz. -/
theorem band_stable_narrow : Stable (bfEqBandWords 1 20000 1000 240 (32000 : ℕ)) ↔
    (1 : ℤ) ≤ 20000 ∨ (1 : ℤ) = 2 ∧ RestGain 240 :=
  band_stable (by decide) ⟨by decide, by decide, by decide⟩ (by decide) (r := ⟨32000, BF_ALT_1, 56, 8⟩)
    (by decide) (by decide)

/-- A bell of the default frequency is not stable: the cosine of zero is one unit above one. -/
theorem band_not_stable : ¬ ∀ type f q g : ℤ, 1 ≤ type ∧ type ≤ 3 → BandAdmits f q g → g ≠ 0 →
    ∀ r ∈ bfRates, Stable (bfEqBandWords type f q g r.rate) := by
  intro hall
  have hbell := hall 1 0 100 60 (by decide) ⟨by decide, by decide, by decide⟩ (by decide)
    ⟨48000, BF_ALT_1, 56, 8⟩ (by decide)
  revert hbell
  decide +kernel

/-- Nor is one at half of 32 kHz. -/
example : ¬ Stable (bfEqBandWords 1 16000 100 60 32000) := by decide +kernel

end BabyfacePro
