import BabyfacePro.Eq.Words
import BabyfacePro.Lib.Rotation
import Mathlib.Analysis.Real.Pi.Bounds

/-!
# How exact the sine and the cosine are

`bf_sincos` turns a vector by the arc tangents of its table. The right shifts, the start, the table and
the angle left at the end each put it off by a little: by 43 units of the last place in all, wherever
the angle lies. Folding an angle into the first quadrant adds at most one.
-/

namespace BabyfacePro

open Complex (I exp)
open Rotation

/-! ## One iteration -/

/-- The vector of a state. -/
noncomputable def Cordic.vec (s : Cordic) : ℂ := s.x + s.y * I

/-- The side that an iteration turns to. -/
def Cordic.side (s : Cordic) : ℤ := if 0 ≤ s.z then 1 else -1

/-- A step turns to one side or the other. -/
theorem Cordic.side_cases (s : Cordic) : s.side = 1 ∨ s.side = -1 := by
  unfold Cordic.side
  split_ifs <;> simp

/-- A right shift rounds down. -/
theorem shiftRight_mem (x : ℤ) (i : ℕ) :
    0 ≤ (x : ℝ) * (1 / 2) ^ i - (x >>> i : ℤ) ∧ (x : ℝ) * (1 / 2) ^ i - (x >>> i : ℤ) ≤ 1 := by
  have hpos : (0 : ℤ) < 2 ^ i := by positivity
  have hdiv : x >>> i = x / 2 ^ i := by
    rw [Int.shiftRight_eq_div_pow]
    norm_cast
  have hmod : (x : ℝ) = 2 ^ i * (x / 2 ^ i : ℤ) + (x % 2 ^ i : ℤ) := by
    exact_mod_cast (Int.mul_ediv_add_emod x (2 ^ i)).symm
  have hlo : (0 : ℝ) ≤ (x % 2 ^ i : ℤ) := by exact_mod_cast Int.emod_nonneg x hpos.ne'
  have hhi : ((x % 2 ^ i : ℤ) : ℝ) ≤ 2 ^ i := by exact_mod_cast (Int.emod_lt_of_pos x hpos).le
  have hrest : (x : ℝ) * (1 / 2) ^ i - (x / 2 ^ i : ℤ) = (x % 2 ^ i : ℤ) / 2 ^ i := by
    rw [one_div, inv_pow, ← div_eq_mul_inv, div_sub' (by positivity), hmod]
    congr 1
    ring
  rw [hdiv, hrest]
  exact ⟨by positivity, (div_le_one (by positivity)).mpr hhi⟩

/-- A number of parts of at most one is at most the square root of two long. -/
theorem norm_le_sqrt_two {a b : ℝ} (ha : |a| ≤ 1) (hb : |b| ≤ 1) : ‖(a + b * I : ℂ)‖ ≤ √2 := by
  rw [Complex.norm_add_mul_I]
  apply Real.sqrt_le_sqrt
  nlinarith [abs_le.mp ha, abs_le.mp hb, sq_abs a, sq_abs b, abs_nonneg a, abs_nonneg b]

/-- An iteration is an elementary turn, but for what its shifts round off: at most one in each part. -/
theorem Cordic.step_within (s : Cordic) (i : ℕ) (atan : ℤ) :
    Within 1 ((s.step i atan).vec - (1 + (s.side * (1 / 2) ^ i : ℝ) * I) * s.vec) := by
  obtain ⟨hx0, hx1⟩ := shiftRight_mem s.x i
  obtain ⟨hy0, hy1⟩ := shiftRight_mem s.y i
  have hside : |(s.side : ℝ)| = 1 := by
    obtain hd | hd := s.side_cases <;> simp [hd]
  -- What an iteration is off is what the two shifts cut away.
  have hsplit : (s.step i atan).vec - (1 + (s.side * (1 / 2) ^ i : ℝ) * I) * s.vec =
      ((s.side * (s.y * (1 / 2) ^ i - (s.y >>> i : ℤ)) : ℝ) : ℂ) +
        ((-s.side * (s.x * (1 / 2) ^ i - (s.x >>> i : ℤ)) : ℝ) : ℂ) * I := by
    unfold Cordic.vec Cordic.step
    rw [← Cordic.side]
    push_cast
    linear_combination (-(s.side : ℂ) * (1 / 2) ^ i * s.y) * Complex.I_mul_I
  rw [hsplit]
  unfold Within
  simp only [Complex.add_re, Complex.add_im, Complex.ofReal_re, Complex.ofReal_im, Complex.re_ofReal_mul,
    Complex.im_ofReal_mul, Complex.I_re, Complex.I_im, mul_zero, mul_one, add_zero, zero_add]
  constructor
  · rw [abs_mul, hside, one_mul, abs_of_nonneg hy0]
    exact hy1
  · rw [abs_mul, abs_neg, hside, one_mul, abs_of_nonneg hx0]
    exact hx1

/-- A step is a rotation with a gain, but for two roundings. -/
theorem Cordic.norm_step_le (s : Cordic) (i : ℕ) (atan : ℤ) :
    ‖(s.step i atan).vec - (1 + (s.side * (1 / 2) ^ i : ℝ) * I) * s.vec‖ ≤ √2 := by
  obtain ⟨hre, him⟩ := s.step_within i atan
  rw [← Complex.re_add_im ((s.step i atan).vec - _)]
  exact norm_le_sqrt_two hre him

/-! ## The table -/

/-- How far the entries of a table are off, from the `i`-th on. -/
noncomputable def tabError (i : ℕ) : List ℤ → ℝ
  | [] => 0
  | atan :: tab => |2 ^ 27 * Real.arctan ((1 / 2) ^ i) - atan| + tabError (i + 1) tab

/-- The angle that an iteration turns through in front of others. -/
theorem Cordic.abs_angle_le {s : Cordic} {i : ℕ} {atan : ℤ} {tab : List ℤ} {θ : ℝ}
    (h : |2 ^ 27 * θ - ((s.step i atan).z - ((s.step i atan).run (i + 1) tab).z)| ≤ tabError (i + 1) tab) :
    |2 ^ 27 * (s.side * Real.arctan ((1 / 2) ^ i) + θ) - (s.z - (s.run i (atan :: tab)).z)| ≤
      tabError i (atan :: tab) := by
  have hz : ((s.step i atan).z : ℝ) = s.z - s.side * atan := by
    unfold Cordic.step
    rw [← Cordic.side]
    push_cast
    ring
  -- The table's own error of this turn, and what the later turns are off.
  have hsplit : 2 ^ 27 * (s.side * Real.arctan ((1 / 2) ^ i) + θ) - (s.z - (s.run i (atan :: tab)).z) =
      s.side * (2 ^ 27 * Real.arctan ((1 / 2) ^ i) - atan) +
        (2 ^ 27 * θ - ((s.step i atan).z - ((s.step i atan).run (i + 1) tab).z)) := by
    rw [hz, Cordic.run]
    ring
  have hside : |(s.side : ℝ)| = 1 := by
    obtain hd | hd := s.side_cases <;> simp [hd]
  calc |2 ^ 27 * (s.side * Real.arctan ((1 / 2) ^ i) + θ) - (s.z - (s.run i (atan :: tab)).z)|
      ≤ |s.side * (2 ^ 27 * Real.arctan ((1 / 2) ^ i) - atan)| +
        |2 ^ 27 * θ - ((s.step i atan).z - ((s.step i atan).run (i + 1) tab).z)| := by
        rw [hsplit]
        exact abs_add_le _ _
    _ ≤ tabError i (atan :: tab) := by
        rw [abs_mul, hside, one_mul]
        exact add_le_add_right h _

/-- The iterations turn the vector, through the angle that they take off the rest but for what the
table is off. -/
theorem Cordic.run_turns (s : Cordic) (i : ℕ) (tab : List ℤ) :
    ∃ θ : ℝ, Turns (√2) i tab.length θ s.vec (s.run i tab).vec ∧ (s.run i tab).z = left s.z tab ∧
      |2 ^ 27 * θ - (s.z - (s.run i tab).z)| ≤ tabError i tab := by
  induction tab generalizing s i with
  | nil => exact ⟨0, .done i _, rfl, by simp [Cordic.run, tabError]⟩
  | cons atan tab ih =>
    obtain ⟨θ, hturns, hleft, herr⟩ := ih (s.step i atan) (i + 1)
    exact ⟨_, .turn s.side_cases (s.norm_step_le i atan) hturns, hleft, Cordic.abs_angle_le herr⟩

/-- Part by part, what the iterations are off adds up to little more than their number. -/
theorem Cordic.run_sways (s : Cordic) (i : ℕ) (tab : List ℤ) :
    ∃ θ : ℝ, |θ| ≤ 2 * (1 / 2) ^ i ∧ (s.run i tab).z = left s.z tab ∧
      |2 ^ 27 * θ - (s.z - (s.run i tab).z)| ≤ tabError i tab ∧
      Within (sway i tab.length) ((s.run i tab).vec - gain i tab.length * exp (θ * I) * s.vec) := by
  -- The induction is on the table, from the first turn to the last.
  induction tab generalizing s i with
  | nil =>
    refine ⟨0, ?_, rfl, by simp [Cordic.run, tabError], by simp [Cordic.run, Within, gain, sway]⟩
    rw [abs_zero]
    positivity
  | cons atan tab ih =>
    -- The later turns, from the state after this one.
    obtain ⟨θ, hsmall, hleft, herr, hnear⟩ := ih (s.step i atan) (i + 1)
    have hhalf : 2 * ((1 / 2) ^ (i + 1) : ℝ) = (1 / 2) ^ i := by
      rw [pow_succ]
      ring
    rw [hhalf] at hsmall
    refine ⟨s.side * Real.arctan ((1 / 2) ^ i) + θ, ?_, hleft, Cordic.abs_angle_le herr, ?_⟩
    · calc |s.side * Real.arctan ((1 / 2) ^ i) + θ|
          ≤ |s.side * Real.arctan ((1 / 2) ^ i)| + |θ| := abs_add_le _ _
        _ ≤ (1 / 2) ^ i + (1 / 2) ^ i := add_le_add (abs_turn_le i s.side_cases) hsmall
        _ = 2 * (1 / 2) ^ i := by ring
    · exact Within.turn s.side_cases (s.step_within i atan) hsmall hnear

/-- An entry that is close to both partial sums of the series is close to the arc tangent. -/
theorem abs_arctan_sub_le {i : ℕ} (hi : i ≠ 0) (k : ℕ) {atan : ℤ} {ρ : ℝ}
    (hlo : atan - ρ ≤ 2 ^ 27 * arctanSum ((1 / 2) ^ i) (2 * k))
    (hhi : 2 ^ 27 * arctanSum ((1 / 2) ^ i) (2 * k + 1) ≤ atan + ρ) :
    |2 ^ 27 * Real.arctan ((1 / 2) ^ i) - atan| ≤ ρ := by
  obtain ⟨h0, h1⟩ := arctan_mem (show (0 : ℝ) ≤ (1 / 2) ^ i by positivity)
    (pow_lt_one₀ (by norm_num) (by norm_num) hi) k
  rw [abs_le]
  constructor <;> linarith

/-- The last entries of a table are powers of two. -/
def powers : ℕ → List ℤ
  | 0 => []
  | n + 1 => 2 ^ n :: powers n

/-- A power of two is the arc tangent of a small power of a half, but for a cube. -/
theorem abs_arctan_sub_power_le {i n : ℕ} (hi : i ≠ 0) (h : i + n = 27) :
    |2 ^ 27 * Real.arctan ((1 / 2) ^ i) - (2 ^ n : ℤ)| ≤ 2 ^ 27 * (1 / 8) ^ i / 3 := by
  have hx : (2 ^ 27 : ℝ) * (1 / 2) ^ i = (2 ^ n : ℤ) := by
    rw [← h, pow_add]
    push_cast
    rw [mul_right_comm, ← mul_pow]
    norm_num
  have hcube : ((1 / 8) ^ i : ℝ) = ((1 / 2) ^ i) ^ 3 := by
    rw [← pow_mul, mul_comm i 3, pow_mul]
    norm_num
  have hx0 : (0 : ℝ) ≤ ((1 / 2) ^ i) ^ 3 := by positivity
  have hfifth : ((1 / 2) ^ i : ℝ) ^ 5 ≤ ((1 / 2) ^ i) ^ 3 :=
    pow_le_pow_of_le_one (by positivity) (pow_le_one₀ (by norm_num) (by norm_num)) (by norm_num)
  rw [hcube]
  apply abs_arctan_sub_le hi 1 <;> rw [← hx] <;> simp only [arctanSum, Finset.sum_range_succ] <;>
    generalize ((1 / 2) ^ i : ℝ) = x at hx0 hfifth ⊢ <;> norm_num <;> linarith

/-- The errors of the table's tail, whose angles are powers of two. -/
theorem tabError_powers {i n : ℕ} (hi : i ≠ 0) (h : i + n = 28) :
    tabError i (powers n) ≤ 2 ^ 27 * (1 / 8) ^ i * (8 / 21) := by
  induction n generalizing i with
  | zero =>
    unfold powers tabError
    positivity
  | succ n ih =>
    have hentry := abs_arctan_sub_power_le (n := n) hi (by omega)
    have hrest := ih (i := i + 1) (by omega) (by omega)
    have hnext : ((1 / 8) ^ (i + 1) : ℝ) = (1 / 8) ^ i / 8 := by
      rw [pow_succ]
      ring
    rw [hnext] at hrest
    unfold powers tabError
    linarith

/-- From the tenth angle on the table has powers of two. -/
theorem bfAtanTab_eq : bfAtanTab = [0x6487ED5, 0x3B58CE1, 0x1F5B760, 0xFEADD5, 0x7FD56F, 0x3FFAAB,
    0x1FFF55, 0xFFFEB, 0x7FFFD] ++ powers 19 := by decide

/-- The table is off by three units in all. -/
theorem tabError_bfAtanTab : tabError 0 bfAtanTab ≤ 3.02 := by
  -- The first entry is a quarter of pi, the others are sums of the series.
  have h0 : |2 ^ 27 * Real.arctan ((1 / 2) ^ 0) - (0x6487ED5 : ℤ)| ≤ 0.067 := by
    rw [pow_zero, Real.arctan_one, abs_le]
    constructor <;> push_cast <;> linarith [Real.pi_gt_d20, Real.pi_lt_d20]
  have h1 : |2 ^ 27 * Real.arctan ((1 / 2) ^ 1) - (0x3B58CE1 : ℤ)| ≤ 0.337 :=
    abs_arctan_sub_le one_ne_zero 7 (by norm_num [arctanSum, Finset.sum_range_succ])
      (by norm_num [arctanSum, Finset.sum_range_succ])
  have h2 : |2 ^ 27 * Real.arctan ((1 / 2) ^ 2) - (0x1F5B760 : ℤ)| ≤ 0.428 :=
    abs_arctan_sub_le two_ne_zero 4 (by norm_num [arctanSum, Finset.sum_range_succ])
      (by norm_num [arctanSum, Finset.sum_range_succ])
  have h3 : |2 ^ 27 * Real.arctan ((1 / 2) ^ 3) - (0xFEADD5 : ℤ)| ≤ 0.167 :=
    abs_arctan_sub_le three_ne_zero 3 (by norm_num [arctanSum, Finset.sum_range_succ])
      (by norm_num [arctanSum, Finset.sum_range_succ])
  have h4 : |2 ^ 27 * Real.arctan ((1 / 2) ^ 4) - (0x7FD56F : ℤ)| ≤ 0.139 :=
    abs_arctan_sub_le four_ne_zero 2 (by norm_num [arctanSum, Finset.sum_range_succ])
      (by norm_num [arctanSum, Finset.sum_range_succ])
  have h5 : |2 ^ 27 * Real.arctan ((1 / 2) ^ 5) - (0x3FFAAB : ℤ)| ≤ 0.467 :=
    abs_arctan_sub_le (by norm_num) 2 (by norm_num [arctanSum, Finset.sum_range_succ])
      (by norm_num [arctanSum, Finset.sum_range_succ])
  have h6 : |2 ^ 27 * Real.arctan ((1 / 2) ^ 6) - (0x1FFF55 : ℤ)| ≤ 0.359 :=
    abs_arctan_sub_le (by norm_num) 2 (by norm_num [arctanSum, Finset.sum_range_succ])
      (by norm_num [arctanSum, Finset.sum_range_succ])
  have h7 : |2 ^ 27 * Real.arctan ((1 / 2) ^ 7) - (0xFFFEB : ℤ)| ≤ 0.333 :=
    abs_arctan_sub_le (by norm_num) 2 (by norm_num [arctanSum, Finset.sum_range_succ])
      (by norm_num [arctanSum, Finset.sum_range_succ])
  have h8 : |2 ^ 27 * Real.arctan ((1 / 2) ^ 8) - (0x7FFFD : ℤ)| ≤ 0.334 :=
    abs_arctan_sub_le (by norm_num) 2 (by norm_num [arctanSum, Finset.sum_range_succ])
      (by norm_num [arctanSum, Finset.sum_range_succ])
  -- From the ninth on the entries are powers of two, with a tail that is bounded at once.
  have hrest : tabError 9 (powers 19) ≤ 0.381 :=
    (tabError_powers (by norm_num) rfl).trans (by norm_num)
  rw [bfAtanTab_eq]
  simp only [List.cons_append, List.nil_append, tabError]
  linarith

/-! ## The vector at the end -/

/-- The start of the vector is the unit, for what the turns stretch it. -/
theorem gain_start : |gain 0 28 * (0x4DBA76D : ℤ) - 2 ^ 27| ≤ 0.43 := by
  have hpos : 0 ≤ gain 0 28 * ((0x4DBA76D : ℤ) : ℝ) := mul_nonneg (gain_nonneg _ _) (by norm_num)
  have hsq : (gain 0 28 * (0x4DBA76D : ℤ)) ^ 2 = (gainSq 0 28 * 0x4DBA76D ^ 2 : ℚ) := by
    rw [mul_pow, gain_sq]
    push_cast
    ring
  generalize gain 0 28 * ((0x4DBA76D : ℤ) : ℝ) = x at hpos hsq ⊢
  have hlo : (2 ^ 27 - 0.43) ^ 2 ≤ x ^ 2 := by
    rw [hsq]
    norm_num [gainSq]
  have hhi : x ^ 2 ≤ (2 ^ 27) ^ 2 := by
    rw [hsq]
    norm_num [gainSq]
  rw [abs_le]
  constructor
  · linarith [le_of_sq_le_sq hlo hpos]
  · linarith [le_of_sq_le_sq hhi (by positivity)]

/-- The angle left after the first turn, to the upper side, is within reach of the others. -/
theorem abs_left_tail_le {ang : ℤ} (h0 : 0 ≤ ang) (h1 : ang ≤ 0xC90FDAA) :
    |left (ang - 0x6487ED5) bfAtanTab.tail| ≤ 1 := by
  refine abs_left_le (by decide) (abs_le.mpr ?_)
  have hsum : bfAtanTab.tail.sum = 128565612 := by decide
  rw [hsum]
  constructor <;> omega

/-- The vector of an angle. -/
noncomputable def unitVec (ang : ℤ) : ℂ := (2 ^ 27 : ℝ) * exp ((ang / 2 ^ 27 : ℝ) * I)

/-- A sine and a cosine as a vector. -/
noncomputable def scVec (p : ℤ × ℤ) : ℂ := p.2 + p.1 * I

/-- The state after the first turn, to the upper side. -/
def Cordic.first (ang : ℤ) : Cordic := ⟨0x4DBA76D, 0x4DBA76D, ang - 0x6487ED5⟩

/-- The first turn shifts nothing out: it is exact. -/
theorem Cordic.first_turned (ang : ℤ) :
    Turned (growth 0) (Real.arctan ((1 / 2) ^ 0)) 0 ((0x4DBA76D : ℤ) : ℝ) (Cordic.first ang).vec := by
  have hturn := turn_eq 0 (Or.inl rfl)
  rw [Int.cast_one, one_mul, one_mul] at hturn
  unfold Turned Cordic.vec Cordic.first
  rw [← hturn]
  norm_num
  ring_nf

/-- The other turns start from there. -/
theorem scVec_bfSincos {ang : ℤ} (h : 0 ≤ ang) :
    scVec (bfSincos ang) = ((Cordic.first ang).run 1 bfAtanTab.tail).vec := by
  have hstep : (Cordic.mk 0x4DBA76D 0 ang).step 0 0x6487ED5 = Cordic.first ang := by
    unfold Cordic.step Cordic.first
    rw [if_pos h]
    norm_num
  rw [← hstep]
  rfl

/-- The angle that is turned through differs from the angle asked for by what is left and what the table
is off. -/
theorem abs_turned_sub_le {ang : ℤ} {θ : ℝ} (h0 : 0 ≤ ang) (h1 : ang ≤ 0xC90FDAA)
    (h : |2 ^ 27 * θ - ((ang - 0x6487ED5 : ℤ) - (left (ang - 0x6487ED5) bfAtanTab.tail : ℤ))| ≤
      tabError 1 bfAtanTab.tail) :
    (2 ^ 27 : ℝ) * |Real.arctan ((1 / 2) ^ 0) + θ - ang / 2 ^ 27| ≤ 4.02 := by
  -- What is left of the angle at the end is one unit at most.
  have hend : |((left (ang - 0x6487ED5) bfAtanTab.tail : ℤ) : ℝ)| ≤ 1 := by
    exact_mod_cast abs_left_tail_le h0 h1
  have htab : |2 ^ 27 * Real.arctan ((1 / 2) ^ 0) - (0x6487ED5 : ℤ)| + tabError 1 bfAtanTab.tail ≤ 3.02 :=
    tabError_bfAtanTab
  have hsplit : (2 ^ 27 : ℝ) * (Real.arctan ((1 / 2) ^ 0) + θ - ang / 2 ^ 27) =
      (2 ^ 27 * Real.arctan ((1 / 2) ^ 0) - (0x6487ED5 : ℤ)) +
        (2 ^ 27 * θ - ((ang - 0x6487ED5 : ℤ) - (left (ang - 0x6487ED5) bfAtanTab.tail : ℤ))) -
        (left (ang - 0x6487ED5) bfAtanTab.tail : ℤ) := by
    push_cast
    ring
  rw [← abs_of_pos (by positivity : (0 : ℝ) < 2 ^ 27), ← abs_mul,
    abs_of_pos (by positivity : (0 : ℝ) < 2 ^ 27), hsplit]
  refine (abs_sub _ _).trans ((add_le_add_left (abs_add_le _ _) _).trans ?_)
  refine (add_le_add ((add_le_add_right h _).trans htab) hend).trans ?_
  norm_num

/-- What the shifts round off adds up to at most 39 units. -/
theorem sqrt_two_mul_drift_le : √2 * drift 1 27 ≤ 38.31 := by
  have hroot : √2 ≤ 1.4143 := by
    rw [Real.sqrt_le_left (by norm_num)]
    norm_num
  have hsum : drift 1 27 ≤ 27 + 1 / 12 := (drift_le 1 27).trans (by norm_num)
  calc √2 * drift 1 27 ≤ √2 * (27 + 1 / 12) := mul_le_mul_of_nonneg_left hsum (Real.sqrt_nonneg 2)
    _ ≤ 1.4143 * (27 + 1 / 12) := mul_le_mul_of_nonneg_right hroot (by norm_num)
    _ ≤ 38.31 := by norm_num

/-- `bf_sincos` is exact but for 43 units. -/
theorem bfSincos_near {ang : ℤ} (h0 : 0 ≤ ang) (h1 : ang ≤ 0xC90FDAA) :
    ‖scVec (bfSincos ang) - unitVec ang‖ ≤ 43 := by
  obtain ⟨θ, hturns, hleft, herr⟩ := (Cordic.first ang).run_turns 1 bfAtanTab.tail
  have hgain : growth 0 * gain 1 27 = gain 0 28 := rfl
  have hangle : (2 ^ 27 : ℝ) * |Real.arctan ((1 / 2) ^ 0) + θ - ang / 2 ^ 27| ≤ 4.02 := by
    rw [hleft] at herr
    exact abs_turned_sub_le h0 h1 herr
  have hnear := ((Cordic.first_turned ang).trans (gain_nonneg 1 27) hturns.turned).near (r := 2 ^ 27)
    (α := ang / 2 ^ 27) (by positivity)
  rw [← scVec_bfSincos h0, hgain, mul_zero, zero_add] at hnear
  calc ‖scVec (bfSincos ang) - unitVec ang‖
      ≤ √2 * drift 1 27 + |gain 0 28 * (0x4DBA76D : ℤ) - 2 ^ 27| +
          2 ^ 27 * |Real.arctan ((1 / 2) ^ 0) + θ - ang / 2 ^ 27| := hnear
    _ ≤ 38.31 + 0.43 + 4.02 := add_le_add (add_le_add sqrt_two_mul_drift_le gain_start) hangle
    _ ≤ 43 := by norm_num

/-- Part by part `bf_sincos` is exact but for 33 units. -/
theorem bfSincos_within {ang : ℤ} (h0 : 0 ≤ ang) (h1 : ang ≤ 0xC90FDAA) :
    Within 33 (scVec (bfSincos ang) - unitVec ang) := by
  -- The iterations after the first, whose turn is exact.
  obtain ⟨θ, -, hleft, herr, hsway⟩ := (Cordic.first ang).run_sways 1 bfAtanTab.tail
  have hlen : bfAtanTab.tail.length = 27 := rfl
  have hangle : (2 ^ 27 : ℝ) * |Real.arctan ((1 / 2) ^ 0) + θ - ang / 2 ^ 27| ≤ 4.02 := by
    rw [hleft] at herr
    exact abs_turned_sub_le h0 h1 herr
  rw [hlen, ← scVec_bfSincos h0] at hsway
  have hexact : Turned (gain 1 27) θ 0 (Cordic.first ang).vec
      (gain 1 27 * exp (θ * I) * (Cordic.first ang).vec) := by
    simp [Turned]
  have hgain : growth 0 * gain 1 27 = gain 0 28 := rfl
  have hnear := ((Cordic.first_turned ang).trans (gain_nonneg 1 27) hexact).near (r := 2 ^ 27)
    (α := ang / 2 ^ 27) (by positivity)
  rw [hgain, mul_zero, add_zero, zero_add] at hnear
  -- The gain and the angle put the vector off by less than five units.
  have hrest : ‖gain 1 27 * exp (θ * I) * (Cordic.first ang).vec - unitVec ang‖ ≤ 4.45 :=
    hnear.trans ((add_le_add gain_start hangle).trans (by norm_num))
  -- The shifts put each part off by 28 and a little.
  have hsum := hsway.add (Within.of_norm hrest)
  rw [sub_add_sub_cancel] at hsum
  exact hsum.mono (by linarith [(sway_le 1 27).trans (show _ ≤ (28.25 : ℝ) by norm_num)])

/-! ## Folded angles -/

/-- The constant for pi is less than half a unit off. -/
theorem abs_pi_sub_le : |(0x1921FB54 : ℤ) / 2 ^ 27 - Real.pi| ≤ 0.42 / 2 ^ 27 := by
  rw [abs_le]
  constructor <;> linarith [Real.pi_gt_d20, Real.pi_lt_d20]

/-- Angles that are near have vectors that are near. -/
theorem norm_unitVec_sub_le (ang : ℤ) (α : ℝ) :
    ‖unitVec ang - (2 ^ 27 : ℝ) * exp (α * I)‖ ≤ 2 ^ 27 * |ang / 2 ^ 27 - α| := by
  unfold unitVec
  rw [← mul_sub, norm_mul, Complex.norm_real, Real.norm_of_nonneg (by positivity)]
  exact mul_le_mul_of_nonneg_left (norm_exp_sub_exp_le _ _) (by positivity)

/-- Half a turn points the other way. -/
theorem norm_unitVec_add_pi (t : ℤ) : ‖unitVec (t + 0x1921FB54) + unitVec t‖ ≤ 0.42 := by
  have hneg : unitVec t = -((2 ^ 27 : ℝ) * exp ((t / 2 ^ 27 + Real.pi : ℝ) * I)) := by
    unfold unitVec
    rw [Complex.ofReal_add, add_mul, Complex.exp_add, Complex.exp_pi_mul_I]
    ring
  have hangle : (((t + 0x1921FB54 : ℤ) : ℝ) / 2 ^ 27 - (t / 2 ^ 27 + Real.pi)) =
      (0x1921FB54 : ℤ) / 2 ^ 27 - Real.pi := by
    push_cast
    ring
  rw [hneg, ← sub_eq_add_neg]
  refine (norm_unitVec_sub_le _ _).trans ?_
  rw [hangle]
  linarith [abs_pi_sub_le]

/-- The mirror image of a vector at the vertical axis. -/
theorem norm_unitVec_pi_sub (t : ℤ) :
    ‖unitVec (0x1921FB54 - t) + (starRingEnd ℂ) (unitVec t)‖ ≤ 0.42 := by
  have hconj : (starRingEnd ℂ) (unitVec t) = unitVec (-t) := by
    unfold unitVec
    rw [map_mul, Complex.conj_ofReal, ← Complex.exp_conj, map_mul, Complex.conj_ofReal, Complex.conj_I]
    push_cast
    ring_nf
  have hback : 0x1921FB54 - t = -t + 0x1921FB54 := by ring
  rw [hconj, hback]
  exact norm_unitVec_add_pi (-t)

/-- The error of a vector that is put back from the first quadrant. -/
theorem mirror_sub_unitVec (v : ℂ) (t : ℤ) : -(starRingEnd ℂ) v - unitVec (0x1921FB54 - t) =
    -(starRingEnd ℂ) (v - unitVec t) - (unitVec (0x1921FB54 - t) + (starRingEnd ℂ) (unitVec t)) := by
  rw [map_sub]
  ring

/-- The reflection at the vertical axis. -/
theorem norm_mirror_le {v : ℂ} {t : ℤ} {ε : ℝ} (h : ‖v - unitVec t‖ ≤ ε) :
    ‖-(starRingEnd ℂ) v - unitVec (0x1921FB54 - t)‖ ≤ ε + 0.42 := by
  rw [mirror_sub_unitVec]
  refine (norm_sub_le _ _).trans (add_le_add ?_ (norm_unitVec_pi_sub t))
  rwa [norm_neg, Complex.norm_conj]

/-- The same for each part. -/
theorem within_mirror {v : ℂ} {t : ℤ} {ε : ℝ} (h : Within ε (v - unitVec t)) :
    Within (ε + 0.42) (-(starRingEnd ℂ) v - unitVec (0x1921FB54 - t)) := by
  have hrest := Within.of_norm ((norm_neg _).trans_le (norm_unitVec_pi_sub t))
  rw [mirror_sub_unitVec, sub_eq_add_neg]
  exact h.conj.neg.add hrest

/-- The error of a vector that is turned by half a turn. -/
theorem opposite_sub_unitVec (v : ℂ) (t : ℤ) : -v - unitVec (t + 0x1921FB54) =
    -(v - unitVec t) - (unitVec (t + 0x1921FB54) + unitVec t) := by
  ring

/-- The opposite vector. -/
theorem norm_opposite_le {v : ℂ} {t : ℤ} {ε : ℝ} (h : ‖v - unitVec t‖ ≤ ε) :
    ‖-v - unitVec (t + 0x1921FB54)‖ ≤ ε + 0.42 := by
  rw [opposite_sub_unitVec]
  refine (norm_sub_le _ _).trans (add_le_add ?_ (norm_unitVec_add_pi t))
  rwa [norm_neg]

/-- The same for each part. -/
theorem within_opposite {v : ℂ} {t : ℤ} {ε : ℝ} (h : Within ε (v - unitVec t)) :
    Within (ε + 0.42) (-v - unitVec (t + 0x1921FB54)) := by
  have hrest := Within.of_norm ((norm_neg _).trans_le (norm_unitVec_add_pi t))
  rw [opposite_sub_unitVec, sub_eq_add_neg]
  exact h.neg.add hrest

/-- The sine and the cosine of an angle of at most two right angles. -/
def halfTurn (t : ℤ) : ℤ × ℤ :=
  let p := bfSincos (if t > 0xC90FDAA then 0x1921FB54 - t else t)
  (p.1, if t > 0xC90FDAA then -p.2 else p.2)

/-- Folding takes half a turn off first. -/
theorem eqSincos_eq (w0 : ℤ) :
    eqSincos w0 = if w0 > 0x1921FB54 then -halfTurn (w0 - 0x1921FB54) else halfTurn w0 := by
  unfold eqSincos halfTurn
  dsimp only
  by_cases hboth : w0 > 0x1921FB54
  · simp only [if_pos hboth, Prod.neg_mk]
    split_ifs <;> rfl
  · simp only [if_neg hboth]

/-- A cosine that is negated reflects the vector. -/
theorem scVec_mirror (p : ℤ × ℤ) : scVec (p.1, -p.2) = -(starRingEnd ℂ) (scVec p) := by
  simp [scVec, add_comm]

/-- Both that are negated turn it round. -/
theorem scVec_neg (p : ℤ × ℤ) : scVec (-p) = -scVec p := by
  simp [scVec]
  ring

/-- The upper half of the circle, as a vector. -/
theorem halfTurn_near {t : ℤ} (h0 : 0 ≤ t) (h1 : t ≤ 0x1921FB54) :
    ‖scVec (halfTurn t) - unitVec t‖ ≤ 43.42 := by
  unfold halfTurn
  split_ifs with hflip
  · have hnear := norm_mirror_le (@bfSincos_near (0x1921FB54 - t) (by omega) (by omega))
    rw [scVec_mirror]
    norm_num at hnear ⊢
    exact hnear
  · exact (bfSincos_near h0 (by omega)).trans (by norm_num)

/-- The sine and the cosine of a band's angle are exact but for 44 units, also where the angle is
folded. -/
theorem eqSincos_near {w0 : ℤ} (h0 : 0 ≤ w0) (h1 : w0 ≤ 2 * 0x1921FB54) :
    ‖scVec (eqSincos w0) - unitVec w0‖ ≤ 44 := by
  rw [eqSincos_eq]
  split_ifs with hboth
  · have hnear := norm_opposite_le (halfTurn_near (t := w0 - 0x1921FB54) (by omega) (by omega))
    rw [scVec_neg]
    norm_num at hnear ⊢
    exact hnear.trans (by norm_num)
  · exact (halfTurn_near h0 (by omega)).trans (by norm_num)

/-- The same for each part. -/
theorem halfTurn_within {t : ℤ} (h0 : 0 ≤ t) (h1 : t ≤ 0x1921FB54) :
    Within 33.42 (scVec (halfTurn t) - unitVec t) := by
  unfold halfTurn
  split_ifs with hflip
  · have hnear := within_mirror (@bfSincos_within (0x1921FB54 - t) (by omega) (by omega))
    rw [scVec_mirror]
    norm_num at hnear ⊢
    exact hnear
  · exact (bfSincos_within h0 (by omega)).mono (by norm_num)

/-- Part by part they are exact but for 34. -/
theorem eqSincos_within {w0 : ℤ} (h0 : 0 ≤ w0) (h1 : w0 ≤ 2 * 0x1921FB54) :
    Within 34 (scVec (eqSincos w0) - unitVec w0) := by
  rw [eqSincos_eq]
  split_ifs with hboth
  · have hnear := within_opposite (halfTurn_within (t := w0 - 0x1921FB54) (by omega) (by omega))
    rw [scVec_neg]
    norm_num at hnear ⊢
    exact hnear.mono (by norm_num)
  · exact (halfTurn_within h0 (by omega)).mono (by norm_num)

/-! ## The two parts -/

/-- The errors of the cosine and of the sine are the parts of one vector. -/
theorem scVec_sub_unitVec (p : ℤ × ℤ) (ang : ℤ) :
    scVec p - unitVec ang = ((p.2 - 2 ^ 27 * Real.cos (ang / 2 ^ 27) : ℝ) : ℂ) +
      ((p.1 - 2 ^ 27 * Real.sin (ang / 2 ^ 27) : ℝ) : ℂ) * I := by
  unfold scVec unitVec
  rw [Complex.exp_mul_I, ← Complex.ofReal_cos, ← Complex.ofReal_sin]
  push_cast
  ring

/-- So they are within the bound of each part. -/
theorem parts_of_within {p : ℤ × ℤ} {ang : ℤ} {ε : ℝ} (h : Within ε (scVec p - unitVec ang)) :
    |(p.2 : ℝ) - 2 ^ 27 * Real.cos (ang / 2 ^ 27)| ≤ ε ∧
      |(p.1 : ℝ) - 2 ^ 27 * Real.sin (ang / 2 ^ 27)| ≤ ε := by
  rw [scVec_sub_unitVec] at h
  unfold Within at h
  simp only [Complex.add_re, Complex.add_im, Complex.ofReal_re, Complex.ofReal_im, Complex.re_ofReal_mul,
    Complex.im_ofReal_mul, Complex.I_re, Complex.I_im, mul_zero, add_zero, mul_one, zero_add] at h
  exact h

/-- What is close to a vector is close in both parts. -/
theorem abs_parts_le {p : ℤ × ℤ} {ang : ℤ} {ε : ℝ} (h : ‖scVec p - unitVec ang‖ ≤ ε) :
    |(p.2 : ℝ) - 2 ^ 27 * Real.cos (ang / 2 ^ 27)| ≤ ε ∧
      |(p.1 : ℝ) - 2 ^ 27 * Real.sin (ang / 2 ^ 27)| ≤ ε :=
  parts_of_within (Within.of_norm h)

end BabyfacePro
