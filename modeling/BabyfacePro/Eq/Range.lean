import BabyfacePro.Eq.Sincos
import BabyfacePro.Eq.Strip
import BabyfacePro.Lib.Checked

/-!
# The range of the EQ's arithmetic

The EQ's functions once more, with every operation on 64-bit integers and a value only where C defines
one, and with words that have to fit their 32 bits. On every setting that a strip admits they have a
value, the one that the exact arithmetic gives.
-/

namespace BabyfacePro

open Checked

/-! ## The functions on 64 bits -/

/-- One iteration of `bf_sincos`. -/
def Cordic.step64 (s : Cordic) (i : ℕ) (atan : ℤ) : Option Cordic := do
  let d := if 0 ≤ s.z then 1 else -1
  let nx ← sub 64 s.x (← mul 64 d (← shr 64 s.y i))
  let ny ← add 64 s.y (← mul 64 d (← shr 64 s.x i))
  let z ← sub 64 s.z (← mul 64 d atan)
  return ⟨nx, ny, z⟩

/-- `Cordic.run` in 64 bits. -/
def Cordic.run64 (s : Cordic) (i : ℕ) : List ℤ → Option Cordic
  | [] => some s
  | atan :: tab => do (← s.step64 i atan).run64 (i + 1) tab

/-- `bf_sincos`. -/
def bfSincos64 (ang : ℤ) : Option (ℤ × ℤ) := do
  let s ← (Cordic.mk 0x4DBA76D 0 ang).run64 0 bfAtanTab
  return (s.y, s.x)

/-- The rounded shift out of the 27 fractional bits of a product. -/
def roundShift64 (x : ℤ) : Option ℤ := do shr 64 (← add 64 x (2 ^ 26)) (27 : ℕ)

/-- `exp2Series` in 64 bits. -/
def exp2Series64 (rl : ℤ) (k : ℕ) (term e : ℤ) : ℕ → Option ℤ
  | 0 => some e
  | n + 1 => do
    let term ← div 64 (← roundShift64 (← mul 64 term rl)) k
    exp2Series64 rl (k + 1) term (← add 64 e term) n

/-- `bf_exp2`. -/
def bfExp264 (u : ℤ) : Option ℤ := do
  let n ← shr 64 u (27 : ℕ)
  let r ← sub 64 u (← shl 64 n (27 : ℕ))
  let rl ← roundShift64 (← mul 64 r 0x58B90C0)
  let e ← exp2Series64 rl 1 BF_EQ_Q27 BF_EQ_Q27 10
  if 0 ≤ n then shl 64 e n else shr 64 e (← neg 64 n)

/-- The angle of a band's frequency. -/
def eqAngle64 (freq_hz fs : ℤ) : Option ℤ := do
  let w0 ← div 64 (← mul 64 freq_hz BF_EQ_Q27) fs
  shr 64 (← mul 64 w0 0x3243F6A9) (27 : ℕ)

/-- The sine and cosine of an angle, which is first folded into `[0, pi/2]`. -/
def eqSincos64 (w0 : ℤ) : Option (ℤ × ℤ) := do
  let pi := 0x1921FB54
  let hpi := 0xC90FDAA
  let both := w0 > pi
  let t ← (if both then sub 64 w0 pi else some w0)
  let cflip := t > hpi
  let t ← (if cflip then sub 64 pi t else some t)
  let (s, c) ← bfSincos64 t
  let s ← (if both then neg 64 s else some s)
  let c ← (if both then neg 64 c else some c)
  let c ← (if cflip then neg 64 c else some c)
  return (s, c)

/-- A band's bandwidth term. -/
def eqAlpha64 (w0 q100 : ℤ) : Option ℤ := do
  let hpi := 0xC90FDAA
  let u ← div 64 (← add 64 (← mul 64 w0 100) q100) (← mul 64 2 q100)
  let (su, _) ← bfSincos64 (if u > hpi then hpi else u)
  return su

/-- A bell's coefficients. -/
def eqBell64 (c alpha A : ℤ) : Option Biquad := do
  let ta ← roundShift64 (← mul 64 alpha A)
  let b0 ← add 64 BF_EQ_Q27 ta
  let b1 ← mul 64 (-2) c
  let b2 ← sub 64 BF_EQ_Q27 ta
  let a0 ← add 64 BF_EQ_Q27 (← div 64 (← add 64 (← mul 64 alpha BF_EQ_Q27) (← div 64 A 2)) A)
  let a1 ← mul 64 (-2) c
  let a2 ← sub 64 BF_EQ_Q27 (← div 64 (← add 64 (← mul 64 alpha BF_EQ_Q27) (← div 64 A 2)) A)
  return { b0, b1, b2, a0, a1, a2 }

/-- A shelf's coefficients, low or high. -/
def eqShelf64 (low : Bool) (c alpha A sq : ℤ) : Option Biquad := do
  let ap1 ← add 64 A BF_EQ_Q27
  let am1 ← sub 64 A BF_EQ_Q27
  let cp0 ← roundShift64 (← mul 64 am1 c)
  let cp1 ← roundShift64 (← mul 64 ap1 c)
  let ab ← roundShift64 (← mul 64 (← mul 64 2 sq) alpha)
  if low then
    let b0 ← roundShift64 (← mul 64 A (← add 64 (← sub 64 ap1 cp0) ab))
    let b1 ← roundShift64 (← mul 64 (← mul 64 2 A) (← sub 64 am1 cp1))
    let b2 ← roundShift64 (← mul 64 A (← sub 64 (← sub 64 ap1 cp0) ab))
    let a0 ← add 64 (← add 64 ap1 cp0) ab
    let a1 ← mul 64 (-2) (← add 64 am1 cp1)
    let a2 ← sub 64 (← add 64 ap1 cp0) ab
    return { b0, b1, b2, a0, a1, a2 }
  else
    let b0 ← roundShift64 (← mul 64 A (← add 64 (← add 64 ap1 cp0) ab))
    let b1 ← roundShift64 (← mul 64 (← mul 64 (-2) A) (← add 64 am1 cp1))
    let b2 ← roundShift64 (← mul 64 A (← sub 64 (← add 64 ap1 cp0) ab))
    let a0 ← add 64 (← sub 64 ap1 cp0) ab
    let a1 ← mul 64 (-2) (← sub 64 am1 cp1)
    let a2 ← sub 64 (← sub 64 ap1 cp0) ab
    return { b0, b1, b2, a0, a1, a2 }

/-- A word of a biquad: a coefficient over another, which has to fit before it is narrowed. -/
def word64 (num den : ℤ) : Option ℤ := do
  ret 32 (← div 64 (← add 64 (← mul 64 num BF_EQ_Q27) (← div 64 den 2)) den)

/-- The five words of a biquad. -/
def Biquad.words64 (q : Biquad) : Option (Fin 5 → ℤ) := do
  return ![← word64 q.a1 q.a0, ← word64 q.a2 q.a0, ← word64 q.b1 q.b0, ← word64 q.b2 q.b0,
    ← word64 q.b0 q.a0]

/-- `bf_eq_band_words`. -/
def bfEqBandWords64 (type freq_hz q100 gain_x10 fs : ℤ) : Option (Fin 5 → ℤ) := do
  if type = 0 ∨ gain_x10 = 0 ∨ q100 ≤ 0 then
    return ![0, 0, 0, 0, BF_EQ_Q27]
  else
    let w0 ← eqAngle64 freq_hz fs
    let (_, c) ← eqSincos64 w0
    let alpha ← eqAlpha64 w0 q100
    let A ← bfExp264 (← mul 64 gain_x10 0x11021E)
    let sq ← bfExp264 (← mul 64 gain_x10 0x8810F)
    let q ← (if type = 1 then eqBell64 c alpha A else eqShelf64 (type = 2) c alpha A sq)
    q.words64

/-- `bf_eq_lc_freq_raw`. -/
def bfEqLcFreqRaw64 (freq_hz slope_db : ℤ) : Option (BitVec 32) := do
  if freq_hz ≤ 0 then
    return BF_EQ_LC_OFF
  else
    let f ← (
      if slope_db = 6 then do div 64 (← mul 64 freq_hz 15267) 10000
      else if slope_db = 18 then do div 64 (← mul 64 freq_hz 8061) 10000
      else if slope_db = 24 then do div 64 (← mul 64 freq_hz 6977) 10000
      else some freq_hz)
    let word ← div 64 (← add 64 (← mul 64 (← mul 64 11508 f) 11656) (← div 64 (← add 64 11656 f) 2))
      (← add 64 11656 f)
    return .ofInt 32 word

/-- What `bf_eq_update_strip` computes before it uploads. -/
def EqChannel.recompute64 (e : EqChannel) (fs : ℤ) : Option EqChannel := do
  let band64 := fun band =>
    bfEqBandWords64 (e.band_type band) (e.band_freq band) (e.band_q band) (e.band_gain band) fs
  let w := ![← band64 0, ← band64 1, ← band64 2]
  let lc_raw ← bfEqLcFreqRaw64 e.lc_hz e.slope_db
  return { e with
    words := fun band i => w band i.castSucc
    shared := (List.finRange 3).foldl (fun last_c4 band =>
      if e.band_type band ≠ 0 ∧ e.band_gain band ≠ 0 then w band 4 else last_c4) BF_EQ_Q27
    lc_raw := lc_raw
    slope := bfEqLcSlopeByte e.slope_db }

/-! ## The sine and the cosine -/

/-- An iteration has a value, and at most doubles the vector. -/
theorem Cordic.step64_eq {s : Cordic} {i : ℕ} {atan m : ℤ} (hx : |s.x| ≤ m) (hy : |s.y| ≤ m)
    (hz : |s.z| + |atan| ≤ 2 ^ 62) (hm : m ≤ 2 ^ 61) (hi : i < 64) :
    s.step64 i atan = some (s.step i atan) ∧ |(s.step i atan).x| ≤ 2 * m ∧ |(s.step i atan).y| ≤ 2 * m ∧
      |(s.step i atan).z| ≤ |s.z| + |atan| := by
  have hdx := (abs_shiftRight_le s.x i).trans hx
  have hdy := (abs_shiftRight_le s.y i).trans hy
  have hatan := neg_abs_le atan
  have hatan' := le_abs_self atan
  have hsz := neg_abs_le s.z
  have hsz' := le_abs_self s.z
  rw [abs_le] at hx hy hdx hdy
  unfold Cordic.step64 Cordic.step
  simp only [abs_le]
  -- Both sides of the turn are the same but for the signs.
  obtain hd | hd := s.side_cases <;> unfold Cordic.side at hd <;> rw [hd]
  all_goals
    refine ⟨?_, by omega, by omega, by omega⟩
    rw [shr_bind hi, mul_bind, sub_bind, shr_bind hi, mul_bind, add_bind, mul_bind, sub_bind]
    · rfl
    all_goals exact fits64 (by omega)

/-- The iterations have a value. -/
theorem Cordic.run64_eq {s : Cordic} {i m : ℕ} {tab : List ℤ} (hx : |s.x| ≤ 2 ^ m) (hy : |s.y| ≤ 2 ^ m)
    (hz : |s.z| + (tab.map abs).sum ≤ 2 ^ 62) (hm : m + tab.length ≤ 62) (hi : i + tab.length ≤ 64) :
    s.run64 i tab = some (s.run i tab) := by
  induction tab generalizing s i m with
  | nil => rfl
  | cons atan tab ih =>
    rw [List.map_cons, List.sum_cons] at hz
    rw [List.length_cons] at hm hi
    have hsum : 0 ≤ (tab.map abs).sum := List.sum_nonneg fun a ha => by
      obtain ⟨b, -, rfl⟩ := List.mem_map.mp ha
      exact abs_nonneg b
    have hpow : (2 : ℤ) ^ m ≤ 2 ^ 61 := pow_le_pow_right₀ (by norm_num) (by omega)
    obtain ⟨hstep, hx', hy', hz'⟩ := @step64_eq s i atan _ hx hy (by omega) hpow (by omega)
    have hrest := ih (s := s.step i atan) (i := i + 1) (m := m + 1) (by rw [pow_succ]; omega)
      (by rw [pow_succ]; omega) (by omega) (by omega) (by omega)
    unfold Cordic.run64 Cordic.run
    rw [hstep]
    exact hrest

/-- The rotation does not leave 64 bits. -/
theorem bfSincos64_eq {ang : ℤ} (h0 : 0 ≤ ang) (h1 : ang ≤ 0xC90FDAA) :
    bfSincos64 ang = some (bfSincos ang) := by
  have hsum : (bfAtanTab.map abs).sum = 233979969 := by decide
  have hrun := @Cordic.run64_eq ⟨0x4DBA76D, 0, ang⟩ 0 27 bfAtanTab (by norm_num)
    (by norm_num) (by rw [hsum, abs_of_nonneg h0]; omega) (by decide) (by decide)
  unfold bfSincos64 bfSincos
  rw [hrun]
  rfl

/-- An angle of at most `pi/2`, in units of `2^-27`. -/
theorem le_hpi {ang : ℤ} (h : (ang / 2 ^ 27 : ℝ) ≤ Real.pi / 2) : ang ≤ 0xC90FDAA := by
  have hlt : (ang : ℝ) < 0xC90FDAA + 1 := by
    rw [div_le_iff₀ (by positivity)] at h
    linarith [Real.pi_lt_d20]
  have hint : ang < 0xC90FDAA + 1 := by exact_mod_cast hlt
  omega

/-- Over the whole of `[0, pi/2]`, both ends included, the 28 iterations of `bf_sincos` have values of 64
bits, and the outputs are within 43 units of the sine and the cosine. -/
theorem bfSincos_accurate {ang : ℤ} (h0 : 0 ≤ ang) (h1 : (ang / 2 ^ 27 : ℝ) ≤ Real.pi / 2) :
    bfAtanTab.length = 28 ∧ bfSincos64 ang = some (bfSincos ang) ∧
      |((bfSincos ang).1 : ℝ) - 2 ^ 27 * Real.sin (ang / 2 ^ 27)| ≤ 43 ∧
      |((bfSincos ang).2 : ℝ) - 2 ^ 27 * Real.cos (ang / 2 ^ 27)| ≤ 43 := by
  obtain ⟨hcos, hsin⟩ := abs_parts_le (bfSincos_near h0 (le_hpi h1))
  exact ⟨rfl, bfSincos64_eq h0 (le_hpi h1), hsin, hcos⟩

/-- The sine and the cosine of one radian. -/
theorem bfSincos_accurate_one :
    bfAtanTab.length = 28 ∧ bfSincos64 0x8000000 = some (bfSincos 0x8000000) ∧
      |((bfSincos 0x8000000).1 : ℝ) - 2 ^ 27 * Real.sin ((0x8000000 : ℤ) / 2 ^ 27)| ≤ 43 ∧
      |((bfSincos 0x8000000).2 : ℝ) - 2 ^ 27 * Real.cos ((0x8000000 : ℤ) / 2 ^ 27)| ≤ 43 :=
  bfSincos_accurate (by norm_num) (by norm_num; linarith [Real.pi_gt_d2])

/-- The end at 0 gives one and a residue of five. -/
example : bfSincos 0 = (5, 2 ^ 27 + 1) := by decide

/-! ## Rounded shifts and the exponential -/

/-- The rounding to 27 bits, as two bounds. -/
theorem round27_mem (x : ℤ) : 2 ^ 27 * round27 x ≤ x + 2 ^ 26 ∧ x + 2 ^ 26 < 2 ^ 27 * round27 x + 2 ^ 27 := by
  unfold round27
  rw [Int.shiftRight_eq_div_pow]
  omega

/-- The two products of a shelf differ by exactly twice the cosine. -/
theorem round27_shelf (A c : ℤ) :
    round27 ((A + 2 ^ 27) * c) = round27 ((A - 2 ^ 27) * c) + 2 * c := by
  have hsplit : (A + 2 ^ 27) * c = (A - 2 ^ 27) * c + 2 ^ 27 * (2 * c) := by ring
  have h0 := round27_mem ((A - 2 ^ 27) * c)
  have h1 := round27_mem ((A + 2 ^ 27) * c)
  omega

/-- A rounding shift that fits. -/
theorem roundShift64_bind {x : ℤ} {α : Type} {k : ℤ → Option α} (h : -2 ^ 61 ≤ x ∧ x ≤ 2 ^ 61) :
    (roundShift64 x >>= k) = k (round27 x) := by
  have hround := round27_mem x
  unfold round27 at hround ⊢
  unfold roundShift64
  rw [bind_assoc, add_bind, shr_bind (by decide)]
  all_goals exact fits64 (by omega)

/-- The terms of the series stay below the first, and the series has a value. -/
theorem exp2Series64_eq {rl term e : ℤ} {k n : ℕ} (hrl : 0 ≤ rl ∧ rl ≤ 2 ^ 27)
    (hterm : 0 ≤ term ∧ term ≤ 2 ^ 27) (he : 0 ≤ e ∧ e + n * 2 ^ 27 ≤ 2 ^ 40) (hk : 0 < k) :
    exp2Series64 rl k term e n = some (exp2Series rl k term e n) ∧ 0 ≤ exp2Series rl k term e n ∧
      exp2Series rl k term e n ≤ e + n * 2 ^ 27 := by
  -- The induction is on the number of terms, over the sum so far.
  induction n generalizing k term e with
  | zero => exact ⟨rfl, he.1, by simp [exp2Series]⟩
  | succ n ih =>
    -- The product of two words below `2 ^ 27` fits, and the next term is no larger than the first.
    have hmul : 0 ≤ term * rl ∧ term * rl ≤ 2 ^ 27 * 2 ^ 27 :=
      ⟨mul_nonneg hterm.1 hrl.1, mul_le_mul hterm.2 hrl.2 hrl.1 (by norm_num)⟩
    have hround := round27_mem (term * rl)
    have hnext : 0 ≤ (round27 (term * rl)).tdiv k ∧ (round27 (term * rl)).tdiv k ≤ 2 ^ 27 := by
      have hnonneg : 0 ≤ round27 (term * rl) := by omega
      exact ⟨Int.tdiv_nonneg hnonneg (by omega), (Int.tdiv_le_self _ hnonneg).trans (by omega)⟩
    push_cast at he ⊢
    unfold exp2Series64 exp2Series
    obtain ⟨hval, h0, h1⟩ := ih (e := e + (round27 (term * rl)).tdiv k) hnext ⟨by omega, by omega⟩
      (Nat.succ_pos k)
    refine ⟨?_, h0, h1.trans (by omega)⟩
    -- No operation of this term overflows or divides by zero.
    rw [mul_bind, roundShift64_bind, div_bind, add_bind]
    · exact hval
    all_goals first | exact fits64 (by omega) | omega

/-- A shift by the integer part of an exponent of at most two, to either side. -/
theorem shift64_eq {e n : ℤ} (he : 0 ≤ e ∧ e ≤ 2 ^ 31) (hn : -2 ≤ n ∧ n ≤ 2) :
    (if 0 ≤ n then shl 64 e n else neg 64 n >>= fun m => shr 64 e m) =
      some (if 0 ≤ n then e * 2 ^ n.toNat else e >>> (-n).toNat) := by
  split_ifs with hsign
  · obtain ⟨i, rfl⟩ := Int.eq_ofNat_of_zero_le hsign
    have hpow : (2 : ℤ) ^ i ≤ 2 ^ 2 := pow_le_pow_right₀ (by norm_num) (by omega)
    have hmul : 0 ≤ e * 2 ^ i ∧ e * 2 ^ i ≤ 2 ^ 31 * 2 ^ 2 :=
      ⟨mul_nonneg he.1 (by positivity), mul_le_mul he.2 hpow (by positivity) (by norm_num)⟩
    exact shl_eq (by omega) (fits64 (by omega))
  · obtain ⟨i, hi⟩ := Int.eq_ofNat_of_zero_le (show 0 ≤ -n by omega)
    have hshift := abs_le.mp (abs_shiftRight_le e i)
    rw [abs_of_nonneg he.1] at hshift
    rw [neg_bind, hi]
    · exact shr_eq (by omega) (fits64 (by omega))
    · exact fits64 (by omega)

/-- The series does not leave 64 bits. -/
theorem bfExp264_eq {u : ℤ} (h : -2 ^ 28 ≤ u ∧ u ≤ 2 ^ 28) : bfExp264 u = some (bfExp2 u) := by
  have hn : 2 ^ 27 * (u >>> (27 : ℕ)) ≤ u ∧ u < 2 ^ 27 * (u >>> (27 : ℕ)) + 2 ^ 27 := by
    rw [Int.shiftRight_eq_div_pow]
    omega
  have hround := round27_mem ((u - u >>> (27 : ℕ) * 2 ^ 27) * 0x58B90C0)
  obtain ⟨hval, h0, h1⟩ := @exp2Series64_eq (round27 ((u - u >>> (27 : ℕ) * 2 ^ 27) * 0x58B90C0)) BF_EQ_Q27
    BF_EQ_Q27 1 10 ⟨by omega, by omega⟩ (by decide) (by decide) (by norm_num)
  unfold BF_EQ_Q27 at h1
  unfold bfExp264 bfExp2
  rw [shr_bind (by decide), shl_bind (by decide), sub_bind, mul_bind, roundShift64_bind, hval]
  · exact shift64_eq ⟨h0, h1.trans (by norm_num)⟩ (by omega)
  all_goals first | exact fits64 (by omega) | omega

/-- The amplitude of a gain and its square root, for each of the gains. -/
theorem bfExp2_gain_mem {g : ℤ} (h : -240 ≤ g ∧ g ≤ 240) :
    (33713973 ≤ bfExp2 (g * 0x11021E) ∧ bfExp2 (g * 0x11021E) ≤ 534330320) ∧
      (67268215 ≤ bfExp2 (g * 0x8810F) ∧ bfExp2 (g * 0x8810F) ≤ 267799555) := by
  have hall : ∀ i < 481, (33713973 ≤ bfExp2 (((i : ℕ) - 240 : ℤ) * 0x11021E) ∧
      bfExp2 (((i : ℕ) - 240 : ℤ) * 0x11021E) ≤ 534330320) ∧
      (67268215 ≤ bfExp2 (((i : ℕ) - 240 : ℤ) * 0x8810F) ∧
        bfExp2 (((i : ℕ) - 240 : ℤ) * 0x8810F) ≤ 267799555) := by decide +kernel
  obtain ⟨i, hi⟩ := Int.eq_ofNat_of_zero_le (show 0 ≤ g + 240 by omega)
  have hg : g = (i : ℤ) - 240 := by omega
  rw [hg]
  exact hall i (by omega)

/-! ## The angles of a band -/

/-- The angle fits, and is at most a half turn and a quarter. -/
theorem eqAngle64_eq {freq_hz fs : ℤ} (hf : 0 ≤ freq_hz ∧ freq_hz ≤ 20000) (hfs : 32000 ≤ fs) :
    eqAngle64 freq_hz fs = some (eqAngle freq_hz fs) ∧ 0 ≤ eqAngle freq_hz fs ∧
      eqAngle freq_hz fs ≤ 527071785 := by
  have hmul : 0 ≤ freq_hz * BF_EQ_Q27 ∧ freq_hz * BF_EQ_Q27 ≤ 2684354560000 := by
    unfold BF_EQ_Q27
    constructor <;> omega
  have hquot : 0 ≤ (freq_hz * BF_EQ_Q27).tdiv fs ∧ (freq_hz * BF_EQ_Q27).tdiv fs ≤ 83886080 := by
    refine ⟨Int.tdiv_nonneg hmul.1 (by omega), (le_abs_self _).trans (abs_tdiv_le (by omega) ?_)⟩
    rw [abs_of_nonneg hmul.1]
    omega
  have hshift : ((freq_hz * BF_EQ_Q27).tdiv fs * 0x3243F6A9) >>> (27 : ℕ) =
      ((freq_hz * BF_EQ_Q27).tdiv fs * 0x3243F6A9) / 2 ^ 27 := Int.shiftRight_eq_div_pow _ _
  unfold eqAngle64 eqAngle
  refine ⟨?_, by omega, by omega⟩
  rw [mul_bind, div_bind, mul_bind]
  · exact shr_eq (by decide) (fits64 (by omega))
  all_goals first | exact fits64 (by omega) | omega

/-- The cosine of a band's angle, after folding. -/
theorem eqSincos_mem {w0 : ℤ} (h0 : 0 ≤ w0) (h1 : w0 ≤ 2 * 0x1921FB54) :
    -(2 ^ 27 + 44) ≤ (eqSincos w0).2 ∧ (eqSincos w0).2 ≤ 2 ^ 27 + 44 := by
  obtain ⟨hcos, -⟩ := abs_parts_le (eqSincos_near h0 h1)
  rw [abs_le] at hcos
  have hlo : (-(2 ^ 27 + 44) : ℝ) ≤ (eqSincos w0).2 := by
    linarith [Real.neg_one_le_cos (w0 / 2 ^ 27)]
  have hhi : ((eqSincos w0).2 : ℝ) ≤ 2 ^ 27 + 44 := by
    linarith [Real.cos_le_one (w0 / 2 ^ 27)]
  exact ⟨by exact_mod_cast hlo, by exact_mod_cast hhi⟩

/-- A sine and a cosine of an angle in `[0, pi/2]`. -/
theorem bfSincos_mem {ang : ℤ} (h0 : 0 ≤ ang) (h1 : ang ≤ 0xC90FDAA) :
    (-43 ≤ (bfSincos ang).1 ∧ (bfSincos ang).1 ≤ 2 ^ 27 + 43) ∧
      (-43 ≤ (bfSincos ang).2 ∧ (bfSincos ang).2 ≤ 2 ^ 27 + 43) := by
  -- The word is near the real sine and cosine, which lie between 0 and 1 in this quarter.
  obtain ⟨hcos, hsin⟩ := abs_parts_le (bfSincos_near h0 h1)
  rw [abs_le] at hcos hsin
  have hang : (0 : ℝ) ≤ ang / 2 ^ 27 ∧ (ang / 2 ^ 27 : ℝ) ≤ Real.pi / 2 := by
    have h1' : (ang : ℝ) ≤ 0xC90FDAA := by exact_mod_cast h1
    have h0' : (0 : ℝ) ≤ ang := by exact_mod_cast h0
    constructor <;> linarith [Real.pi_gt_d20]
  have hs0 := Real.sin_nonneg_of_nonneg_of_le_pi hang.1 (by linarith [Real.pi_pos])
  have hc0 := Real.cos_nonneg_of_neg_pi_div_two_le_of_le (by linarith [Real.pi_pos]) hang.2
  have hs1 := Real.sin_le_one (ang / 2 ^ 27)
  have hc1 := Real.cos_le_one (ang / 2 ^ 27)
  have hsin0 : (-43 : ℝ) ≤ (bfSincos ang).1 := by linarith
  have hsin1 : ((bfSincos ang).1 : ℝ) ≤ 2 ^ 27 + 43 := by linarith
  have hcos0 : (-43 : ℝ) ≤ (bfSincos ang).2 := by linarith
  have hcos1 : ((bfSincos ang).2 : ℝ) ≤ 2 ^ 27 + 43 := by linarith
  exact ⟨⟨by exact_mod_cast hsin0, by exact_mod_cast hsin1⟩, by exact_mod_cast hcos0,
    by exact_mod_cast hcos1⟩

/-- A change of sign, if it is made, has a value. -/
theorem neg64_bind {b : Prop} [Decidable b] {x : ℤ} {α : Type} {k : ℤ → Option α}
    (h : -2 ^ 62 ≤ x ∧ x ≤ 2 ^ 62) :
    ((if b then neg 64 x else some x) >>= k) = k (if b then -x else x) := by
  split_ifs
  · exact neg_bind (fits64 (by omega))
  · rfl

/-- A reflection that fits. -/
theorem sub64_bind {b : Prop} [Decidable b] {x y : ℤ} {α : Type} {k : ℤ → Option α}
    (h : -2 ^ 62 ≤ x - y ∧ x - y ≤ 2 ^ 62) (z : ℤ) :
    ((if b then sub 64 x y else some z) >>= k) = k (if b then x - y else z) := by
  split_ifs
  · exact sub_bind (fits64 h)
  · rfl

/-- The rotation and its reflections fit. -/
theorem eqSincos64_eq {w0 : ℤ} (h0 : 0 ≤ w0) (h1 : w0 ≤ 2 * 0x1921FB54) :
    eqSincos64 w0 = some (eqSincos w0) := by
  unfold eqSincos64 eqSincos
  dsimp only
  -- The two reflections bring the angle into the first quarter.
  rw [sub64_bind (by omega)]
  generalize ht : (if w0 > 0x1921FB54 then w0 - 0x1921FB54 else w0) = t
  have hhalf : 0 ≤ t ∧ t ≤ 0x1921FB54 := by split_ifs at ht <;> omega
  rw [sub64_bind (by omega)]
  generalize hu : (if t > 0xC90FDAA then 0x1921FB54 - t else t) = u
  have hquarter : 0 ≤ u ∧ u ≤ 0xC90FDAA := by split_ifs at hu <;> omega
  obtain ⟨hs, hc⟩ := bfSincos_mem hquarter.1 hquarter.2
  rw [bfSincos64_eq hquarter.1 hquarter.2]
  generalize bfSincos u = p at hs hc ⊢
  have hcos : -2 ^ 62 ≤ (if w0 > 0x1921FB54 then -p.2 else p.2) ∧
      (if w0 > 0x1921FB54 then -p.2 else p.2) ≤ 2 ^ 62 := by
    split_ifs <;> omega
  show ((if w0 > 0x1921FB54 then neg 64 p.1 else some p.1) >>= fun s => _) = _
  rw [neg64_bind (by omega), neg64_bind (by omega), neg64_bind hcos]
  split_ifs <;> rfl

/-- The bandwidth's angle is held within `[0, pi/2]`, and its sine is hardly negative. -/
theorem eqAlpha64_eq {w0 q100 : ℤ} (h0 : 0 ≤ w0) (h1 : w0 ≤ 2 ^ 40) (hq : 0 < q100 ∧ q100 ≤ 2 ^ 40) :
    eqAlpha64 w0 q100 = some (eqAlpha w0 q100) ∧ -43 ≤ eqAlpha w0 q100 ∧
      eqAlpha w0 q100 ≤ 2 ^ 27 + 43 := by
  have hquot : 0 ≤ (w0 * 100 + q100).tdiv (2 * q100) := Int.tdiv_nonneg (by omega) (by omega)
  have hquot' : (w0 * 100 + q100).tdiv (2 * q100) ≤ w0 * 100 + q100 := Int.tdiv_le_self _ (by omega)
  unfold eqAlpha64 eqAlpha
  dsimp only
  rw [mul_bind, add_bind, mul_bind, div_bind]
  · generalize hu : (if (w0 * 100 + q100).tdiv (2 * q100) > 0xC90FDAA then 0xC90FDAA
      else (w0 * 100 + q100).tdiv (2 * q100)) = u
    have hu' : 0 ≤ u ∧ u ≤ 0xC90FDAA := by split_ifs at hu <;> omega
    rw [bfSincos64_eq hu'.1 hu'.2]
    obtain ⟨⟨hs0, hs1⟩, -⟩ := bfSincos_mem hu'.1 hu'.2
    exact ⟨rfl, hs0, hs1⟩
  all_goals first | exact fits64 (by omega) | omega

/-! ## The coefficients -/

/-- What a band's arithmetic starts from: a cosine and a sine that are hardly out of their range, and
the amplitude and its square root for a gain of at most 24 dB. -/
structure BandTerms (c alpha A sq : ℤ) : Prop where
  cos : -(2 ^ 27 + 44) ≤ c ∧ c ≤ 2 ^ 27 + 44
  alpha : -43 ≤ alpha ∧ alpha ≤ 2 ^ 27 + 43
  amp : 33713973 ≤ A ∧ A ≤ 534330320
  root : 67268215 ≤ sq ∧ sq ≤ 267799555

/-- A quotient below sixteen, of numbers that are far from the limits of 64 bits. -/
structure WordQuot (num den : ℤ) : Prop where
  pos : 0 < den ∧ den ≤ 2 ^ 34
  small : -2 ^ 34 ≤ num ∧ num ≤ 2 ^ 34
  lo : -(1599 * den) ≤ 100 * num
  hi : 100 * num ≤ 1599 * den

/-- Coefficients whose quotients fit a word. -/
structure Biquad.InRange (q : Biquad) : Prop where
  a1 : WordQuot q.a1 q.a0
  a2 : WordQuot q.a2 q.a0
  b1 : WordQuot q.b1 q.b0
  b2 : WordQuot q.b2 q.b0
  scale : WordQuot q.b0 q.a0

/-- A half, rounded down. -/
theorem half_mem {den : ℤ} (h : 0 < den) : 2 * den.tdiv 2 ≤ den ∧ den ≤ 2 * den.tdiv 2 + 1 := by
  rw [Int.tdiv_eq_ediv_of_nonneg h.le]
  omega

/-- A word fits when the quotient is below sixteen. -/
theorem WordQuot.word_le {num den : ℤ} (h : WordQuot num den) :
    |(num * BF_EQ_Q27 + den.tdiv 2).tdiv den| ≤ 2 ^ 31 - 1 := by
  obtain ⟨hden, hnum, hlo, hhi⟩ := h
  have hhalf := half_mem hden.1
  refine abs_tdiv_le hden.1 (abs_le.mpr ?_)
  unfold BF_EQ_Q27
  constructor <;> omega

/-- Narrowing does not change it. -/
theorem WordQuot.toInt32_eq {num den : ℤ} (h : WordQuot num den) :
    toInt32 ((num * BF_EQ_Q27 + den.tdiv 2).tdiv den) = (num * BF_EQ_Q27 + den.tdiv 2).tdiv den :=
  toInt32_of_le (abs_le.mp h.word_le) (by norm_num) (by norm_num)

/-- The quotient of a word fits. -/
theorem word64_eq {num den : ℤ} (h : WordQuot num den) :
    word64 num den = some (toInt32 ((num * BF_EQ_Q27 + den.tdiv 2).tdiv den)) := by
  have hquot := abs_le.mp h.word_le
  have hfits : Fits 32 ((num * BF_EQ_Q27 + den.tdiv 2).tdiv den) := by
    constructor <;> norm_num at * <;> omega
  rw [h.toInt32_eq]
  obtain ⟨hden, hnum, -, -⟩ := h
  have hhalf := half_mem hden.1
  unfold word64
  unfold BF_EQ_Q27 at *
  rw [mul_bind, div_bind (by norm_num), add_bind, div_bind (by omega), ret_eq hfits]
  all_goals exact fits64 (by omega)

/-- The words of a biquad fit. -/
theorem Biquad.words64_eq {q : Biquad} (h : q.InRange) : q.words64 = some q.words := by
  unfold Biquad.words64
  rw [word64_eq h.a1, word64_eq h.a2, word64_eq h.b1, word64_eq h.b2, word64_eq h.scale]
  rfl

section Coefficients

variable {c alpha A sq : ℤ}

/-- A bell's products fit, and its coefficients are in their range. -/
theorem eqBell64_eq (h : BandTerms c alpha A sq) :
    eqBell64 c alpha A = some (eqBell c alpha A) ∧ (eqBell c alpha A).InRange := by
  obtain ⟨hc, halpha, hA, -⟩ := h
  -- The product and the quotient of the bandwidth and the amplitude are bounded first.
  have hmul : -22976284000 ≤ alpha * A ∧ alpha * A ≤ 534330320 * (2 ^ 27 + 43) := by
    constructor <;> nlinarith
  have hround := round27_mem (alpha * A)
  have hhalf : 0 ≤ A.tdiv 2 ∧ 2 * A.tdiv 2 ≤ A := by
    rw [Int.tdiv_eq_ediv_of_nonneg (by omega)]
    omega
  have hquot : -172 ≤ (alpha * BF_EQ_Q27 + A.tdiv 2).tdiv A ∧
      (alpha * BF_EQ_Q27 + A.tdiv 2).tdiv A ≤ 540000000 := by
    unfold BF_EQ_Q27
    have habs : |alpha * 2 ^ 27 + A.tdiv 2| ≤ 540000000 * A := abs_le.mpr ⟨by omega, by omega⟩
    exact ⟨Int.le_tdiv_of_mul_le (by omega) (by omega),
      (le_abs_self _).trans (abs_tdiv_le (by omega) habs)⟩
  generalize hd : (alpha * BF_EQ_Q27 + A.tdiv 2).tdiv A = d at hquot
  unfold eqBell64 eqBell
  unfold BF_EQ_Q27 at *
  simp only [hd]
  constructor
  -- Each operation fits in 64 bits with these bounds, and the divisor is not zero.
  · have hA0 : A ≠ 0 := by omega
    rw [mul_bind, roundShift64_bind, add_bind, mul_bind, sub_bind, mul_bind, div_bind (by norm_num), add_bind,
      div_bind hA0, hd, add_bind, mul_bind, mul_bind, div_bind (by norm_num), add_bind, div_bind hA0, hd,
      sub_bind]
    · rfl
    all_goals first | exact fits64 (by omega) | omega
  -- The sums of the coefficients lie in the range of the words.
  · constructor <;> constructor <;> dsimp only <;> omega

/-- The two numerator quotients of a shelf: both coefficients carry the amplitude. -/
theorem scaled_quot {A Y N : ℤ} (hA : 33713973 ≤ A ∧ A ≤ 534330320) (hY : 67000000 ≤ Y ∧ Y ≤ 2 ^ 31)
    (hN : -2 ^ 32 ≤ N ∧ N ≤ 2 ^ 32) (h : -(15 * Y) ≤ N ∧ N ≤ 15 * Y) :
    WordQuot (round27 (A * N)) (round27 (A * Y)) := by
  have hA0 : 0 ≤ A := by omega
  have hlo : A * -(15 * Y) ≤ A * N := mul_le_mul_of_nonneg_left h.1 hA0
  have hhi : A * N ≤ A * (15 * Y) := mul_le_mul_of_nonneg_left h.2 hA0
  have hfifteen : A * (15 * Y) = 15 * (A * Y) := by ring
  rw [mul_neg, hfifteen] at hlo
  rw [hfifteen] at hhi
  have hYlo : 33713973 * 67000000 ≤ A * Y := mul_le_mul hA.1 hY.1 (by norm_num) hA0
  have hYhi : A * Y ≤ 534330320 * 2 ^ 31 := mul_le_mul hA.2 hY.2 (by omega) (by norm_num)
  have hNabs := abs_le.mp (abs_mul_le (abs_le.mpr ⟨by omega, hA.2⟩) (abs_le.mpr hN))
  have hroundN := round27_mem (A * N)
  have hroundY := round27_mem (A * Y)
  constructor <;> omega

/-- The scale of a shelf is at most the square of the amplitude. -/
theorem scale_quot {A p ab : ℤ} (hA : 33713973 ≤ A ∧ A ≤ 534330320)
    (hp : -(|A - 2 ^ 27| + 133) ≤ p ∧ p ≤ |A - 2 ^ 27| + 133) (hab : -173 ≤ ab ∧ ab ≤ 540000000) :
    WordQuot (round27 (A * (A + 2 ^ 27 - p + ab))) (A + 2 ^ 27 + p + ab) := by
  have hround := round27_mem (A * (A + 2 ^ 27 - p + ab))
  obtain hsign | hsign := le_total (2 ^ 27) A
  · rw [abs_of_nonneg (by omega)] at hp
    have hmul : 0 ≤ A * (A + 2 ^ 27 - p + ab) ∧
        A * (A + 2 ^ 27 - p + ab) ≤ 534330320 * (2 * A + 133 + ab) :=
      ⟨mul_nonneg (by omega) (by omega), mul_le_mul hA.2 (by omega) (by omega) (by norm_num)⟩
    constructor <;> omega
  · rw [abs_of_nonpos (by omega)] at hp
    have hmul : 0 ≤ A * (A + 2 ^ 27 - p + ab) ∧
        A * (A + 2 ^ 27 - p + ab) ≤ A * (2 * 2 ^ 27 + 133) + A * (ab + 173) := by
      refine ⟨mul_nonneg (by omega) (by omega), ?_⟩
      rw [← mul_add]
      exact mul_le_mul_of_nonneg_left (by omega) (by omega)
    have hrest : A * (ab + 173) ≤ 2 ^ 27 * (ab + 173) := mul_le_mul_of_nonneg_right hsign (by omega)
    constructor <;> omega

/-- The products that a shelf's coefficients are put together from, and their rounded shifts. -/
structure ShelfTerms (c alpha A sq : ℤ) : Prop where
  cp0 : -2 ^ 57 ≤ (A - 2 ^ 27) * c ∧ (A - 2 ^ 27) * c ≤ 2 ^ 57
  cp1 : -2 ^ 57 ≤ (A + 2 ^ 27) * c ∧ (A + 2 ^ 27) * c ≤ 2 ^ 57
  ab : -2 ^ 57 ≤ 2 * sq * alpha ∧ 2 * sq * alpha ≤ 2 ^ 57
  round_cp0 : -(|A - 2 ^ 27| + 133) ≤ round27 ((A - 2 ^ 27) * c) ∧
    round27 ((A - 2 ^ 27) * c) ≤ |A - 2 ^ 27| + 133
  round_cp1 : -(A + 2 ^ 27 + 220) ≤ round27 ((A + 2 ^ 27) * c) ∧
    round27 ((A + 2 ^ 27) * c) ≤ A + 2 ^ 27 + 220
  round_ab : -173 ≤ round27 (2 * sq * alpha) ∧ round27 (2 * sq * alpha) ≤ 540000000

/-- The terms of a band are those of a shelf. -/
theorem BandTerms.shelf (h : BandTerms c alpha A sq) : ShelfTerms c alpha A sq := by
  obtain ⟨hc, halpha, hA, hsq⟩ := h
  have hm : |A - 2 ^ 27| ≤ 400112592 := abs_le.mpr ⟨by omega, by omega⟩
  have hcp0 := abs_le.mp (abs_mul_le (le_refl |A - 2 ^ 27|) (abs_le.mpr hc))
  have hcp1 := abs_le.mp (abs_mul_le (le_refl |A + 2 ^ 27|) (abs_le.mpr hc))
  rw [abs_of_nonneg (by omega : 0 ≤ A + 2 ^ 27)] at hcp1
  have hab : 2 * 267799555 * -43 ≤ 2 * sq * alpha ∧ 2 * sq * alpha ≤ 2 * 267799555 * (2 ^ 27 + 43) := by
    constructor <;> nlinarith
  have hround0 := round27_mem ((A - 2 ^ 27) * c)
  have hround1 := round27_mem ((A + 2 ^ 27) * c)
  have hroundab := round27_mem (2 * sq * alpha)
  constructor <;> omega

/-- The denominator of a shelf is at least a quarter, and the other coefficients are less than eight times
as large. -/
theorem shelf_inRange {p q ab : ℤ} {k : Biquad} (hA : 33713973 ≤ A ∧ A ≤ 534330320)
    (hp : -(|A - 2 ^ 27| + 133) ≤ p ∧ p ≤ |A - 2 ^ 27| + 133)
    (hq : -(A + 2 ^ 27 + 220) ≤ q ∧ q ≤ A + 2 ^ 27 + 220) (hab : -173 ≤ ab ∧ ab ≤ 540000000)
    (hb0 : k.b0 = round27 (A * (A + 2 ^ 27 - p + ab)))
    (hb1 : k.b1 = round27 (A * (2 * (A - 2 ^ 27 - q))) ∨ k.b1 = round27 (A * (-2 * (A - 2 ^ 27 - q))))
    (hb2 : k.b2 = round27 (A * (A + 2 ^ 27 - p - ab))) (ha0 : k.a0 = A + 2 ^ 27 + p + ab)
    (ha1 : k.a1 = -2 * (A - 2 ^ 27 + q)) (ha2 : k.a2 = A + 2 ^ 27 + p - ab) : k.InRange := by
  -- The amplitude is above or below one.
  have hm : |A - 2 ^ 27| = A - 2 ^ 27 ∧ 2 ^ 27 ≤ A ∨ |A - 2 ^ 27| = -(A - 2 ^ 27) ∧ A ≤ 2 ^ 27 := by
    obtain h | h := le_total (2 ^ 27) A
    · exact .inl ⟨abs_of_nonneg (by omega), h⟩
    · exact .inr ⟨abs_of_nonpos (by omega), h⟩
  -- The sum that is scaled in `b0` stays away from zero.
  have hY : 67000000 ≤ A + 2 ^ 27 - p + ab ∧ A + 2 ^ 27 - p + ab ≤ 2 ^ 31 := by
    constructor <;> omega
  -- Each coefficient against `a0`, or against `b0` for those that the scale divides.
  constructor
  · rw [ha0, ha1]
    constructor <;> omega
  · rw [ha0, ha2]
    constructor <;> omega
  · rw [hb0]
    obtain h | h := hb1 <;> rw [h] <;> apply scaled_quot hA hY <;> omega
  · rw [hb0, hb2]
    apply scaled_quot hA hY <;> omega
  · rw [hb0, ha0]
    exact scale_quot hA hp hab

/-- A shelf's coefficients are in their range. -/
theorem eqShelf_inRange (low : Bool) (h : BandTerms c alpha A sq) :
    (eqShelf low c alpha A sq).InRange := by
  obtain ⟨hcp0, hcp1, hab⟩ := And.intro h.shelf.round_cp0 (And.intro h.shelf.round_cp1 h.shelf.round_ab)
  have htwo : ∀ x : ℤ, 2 * A * x = A * (2 * x) := fun x => by ring
  have hneg : ∀ x : ℤ, -2 * A * x = A * (-2 * x) := fun x => by ring
  unfold eqShelf BF_EQ_Q27
  dsimp only
  cases low with
  | true =>
    exact shelf_inRange h.amp hcp0 hcp1 hab rfl (.inl (congrArg round27 (htwo _))) rfl rfl rfl rfl
  | false =>
    -- The high shelf is the low one with the cosine's sign turned, but for `b1`.
    refine shelf_inRange (p := -round27 ((A - 2 ^ 27) * c)) (q := -round27 ((A + 2 ^ 27) * c)) h.amp (by omega)
      (by omega) hab ?_ (.inr ?_) ?_ ?_ ?_ ?_
    all_goals simp only [sub_neg_eq_add, ← sub_eq_add_neg, hneg]
    all_goals rfl

/-- The amplitude times a coefficient stays within 64 bits. -/
theorem abs_amp_mul_le {A x : ℤ} (hA : 33713973 ≤ A ∧ A ≤ 534330320) (hx : -2 ^ 31 ≤ x ∧ x ≤ 2 ^ 31) :
    -2 ^ 60 ≤ A * x ∧ A * x ≤ 2 ^ 60 := by
  have hmul := abs_le.mp (abs_mul_le (abs_le.mpr ⟨by omega, hA.2⟩) (abs_le.mpr hx))
  constructor <;> omega

/-- A shelf's products fit. -/
theorem eqShelf64_eq (low : Bool) (h : BandTerms c alpha A sq) :
    eqShelf64 low c alpha A sq = some (eqShelf low c alpha A sq) := by
  obtain ⟨hcp0, hcp1, hab, hp, hq, hr⟩ := h.shelf
  obtain ⟨-, -, hA, hsq⟩ := h
  -- The difference of the amplitude from one, which both shelves multiply.
  have hm : |A - 2 ^ 27| ≤ 400112592 := abs_le.mpr ⟨by omega, by omega⟩
  unfold eqShelf64 eqShelf BF_EQ_Q27
  dsimp only
  rw [add_bind, sub_bind, mul_bind, roundShift64_bind, mul_bind, roundShift64_bind, mul_bind, mul_bind,
    roundShift64_bind]
  · generalize round27 ((A - 2 ^ 27) * c) = p at hp ⊢
    generalize round27 ((A + 2 ^ 27) * c) = q at hq ⊢
    generalize round27 (2 * sq * alpha) = r at hr ⊢
    have hprod := fun x => abs_amp_mul_le (x := x) hA
    -- The low and the high shelf do the same operations with two signs changed.
    cases low with
    | true =>
      have h0 := hprod (A + 2 ^ 27 - p + r) (by omega)
      have h1 := hprod (A - 2 ^ 27 - q) (by omega)
      have h2 := hprod (A + 2 ^ 27 - p - r) (by omega)
      have htwo : 2 * A * (A - 2 ^ 27 - q) = 2 * (A * (A - 2 ^ 27 - q)) := by ring
      simp only [if_true]
      rw [sub_bind, add_bind, mul_bind, roundShift64_bind, mul_bind, sub_bind, mul_bind, roundShift64_bind,
        sub_bind, sub_bind, mul_bind, roundShift64_bind, add_bind, add_bind, add_bind, mul_bind, add_bind,
        sub_bind]
      · rfl
      all_goals first | exact fits64 (by omega) | omega
    | false =>
      have h0 := hprod (A + 2 ^ 27 + p + r) (by omega)
      have h1 := hprod (A - 2 ^ 27 + q) (by omega)
      have h2 := hprod (A + 2 ^ 27 + p - r) (by omega)
      have htwo : -2 * A * (A - 2 ^ 27 + q) = -2 * (A * (A - 2 ^ 27 + q)) := by ring
      simp only [Bool.false_eq_true, if_false]
      rw [add_bind, add_bind, mul_bind, roundShift64_bind, mul_bind, add_bind, mul_bind, roundShift64_bind,
        add_bind, sub_bind, mul_bind, roundShift64_bind, sub_bind, add_bind, sub_bind, mul_bind, sub_bind,
        sub_bind]
      · rfl
      all_goals first | exact fits64 (by omega) | omega
  all_goals first | exact fits64 (by omega) | omega

end Coefficients

/-! ## A band and a strip -/

/-- What the ranges of a band's controls admit, and the default Q. -/
structure BandAdmits (freq_hz q100 gain_x10 : ℤ) : Prop where
  freq : 0 ≤ freq_hz ∧ freq_hz ≤ 20000
  q : 5 ≤ q100 ∧ q100 ≤ 1000
  gain : -240 ≤ gain_x10 ∧ gain_x10 ≤ 240

section Band

variable {type freq_hz q100 gain_x10 fs : ℤ}

/-- The product and the quotient of alpha fit. -/
theorem BandAdmits.alpha64_eq (h : BandAdmits freq_hz q100 gain_x10) (hfs : 32000 ≤ fs) :
    eqAlpha64 (eqAngle freq_hz fs) q100 = some (eqAlpha (eqAngle freq_hz fs) q100) ∧
      -43 ≤ eqAlpha (eqAngle freq_hz fs) q100 ∧ eqAlpha (eqAngle freq_hz fs) q100 ≤ 2 ^ 27 + 43 := by
  obtain ⟨-, h0, h1⟩ := eqAngle64_eq h.freq hfs
  have hq := h.q
  exact eqAlpha64_eq h0 (by omega) ⟨by omega, by omega⟩

/-- The cosine, the bandwidth term and the amplitudes of an admitted band. -/
theorem BandAdmits.terms (h : BandAdmits freq_hz q100 gain_x10) (hfs : 32000 ≤ fs) :
    BandTerms (eqSincos (eqAngle freq_hz fs)).2 (eqAlpha (eqAngle freq_hz fs) q100)
      (bfExp2 (gain_x10 * 0x11021E)) (bfExp2 (gain_x10 * 0x8810F)) := by
  obtain ⟨-, h0, h1⟩ := eqAngle64_eq h.freq hfs
  have hcos := eqSincos_mem h0 (by omega)
  obtain ⟨hA, hsq⟩ := bfExp2_gain_mem h.gain
  constructor
  · exact hcos
  · exact (h.alpha64_eq hfs).2
  · exact hA
  · exact hsq

/-- An exponent for a gain of at most 24 dB. -/
theorem BandAdmits.exponent (h : BandAdmits freq_hz q100 gain_x10) {k : ℤ} (hk : 0 ≤ k ∧ k ≤ 0x11021E) :
    -2 ^ 28 ≤ gain_x10 * k ∧ gain_x10 * k ≤ 2 ^ 28 := by
  have hmul := abs_le.mp (abs_mul_le (abs_le.mpr h.gain) (abs_le.mpr ⟨by omega, hk.2⟩))
  constructor <;> omega

/-- The words of an admitted band have a value: no operation on the way goes wrong. -/
theorem bfEqBandWords64_eq (h : BandAdmits freq_hz q100 gain_x10) (hfs : 32000 ≤ fs) :
    bfEqBandWords64 type freq_hz q100 gain_x10 fs = some (bfEqBandWords type freq_hz q100 gain_x10 fs) := by
  have hterms := h.terms hfs
  obtain ⟨hangle, h0, h1⟩ := eqAngle64_eq h.freq hfs
  have hA := h.exponent (k := 0x11021E) (by decide)
  have hsq := h.exponent (k := 0x8810F) (by decide)
  unfold bfEqBandWords64 bfEqBandWords
  -- A band that is off needs no operation.
  by_cases hoff : type = 0 ∨ gain_x10 = 0 ∨ q100 ≤ 0
  · rw [if_pos hoff, if_pos hoff]
    rfl
  · rw [if_neg hoff, if_neg hoff, hangle]
    dsimp only [Option.bind_eq_bind, Option.bind_some]
    rw [eqSincos64_eq h0 (by omega), (h.alpha64_eq hfs).1]
    dsimp only [Option.bind_some]
    show (mul 64 gain_x10 0x11021E >>= fun u => bfExp264 u >>= fun A =>
      mul 64 gain_x10 0x8810F >>= fun v => bfExp264 v >>= fun sq => _) = _
    rw [mul_bind (fits64 (by omega)), bfExp264_eq hA]
    show (mul 64 gain_x10 0x8810F >>= fun v => bfExp264 v >>= fun sq => _) = _
    rw [mul_bind (fits64 (by omega)), bfExp264_eq hsq]
    -- A bell or a shelf, whose coefficients become words in the same way.
    split_ifs with hbell
    · obtain ⟨hval, hin⟩ := eqBell64_eq hterms
      show (eqBell64 _ _ _ >>= fun q => q.words64) = _
      rw [hval]
      exact Biquad.words64_eq hin
    · show (eqShelf64 _ _ _ _ _ >>= fun q => q.words64) = _
      rw [eqShelf64_eq _ hterms]
      exact Biquad.words64_eq (eqShelf_inRange _ hterms)

end Band

/-- A slope's factor, over ten thousand. -/
theorem slopeFactor_bind {freq_hz k : ℤ} (hf : 0 ≤ freq_hz ∧ freq_hz ≤ 20000) (hk : 0 ≤ k ∧ k ≤ 15267) :
    (do div 64 (← mul 64 freq_hz k) 10000) = some ((freq_hz * k).tdiv 10000) ∧
      0 ≤ (freq_hz * k).tdiv 10000 ∧ (freq_hz * k).tdiv 10000 ≤ 20000 * 15267 := by
  have hmul : 0 ≤ freq_hz * k ∧ freq_hz * k ≤ 20000 * 15267 :=
    ⟨mul_nonneg hf.1 hk.1, mul_le_mul hf.2 hk.2 hk.1 (by norm_num)⟩
  have hquot : 0 ≤ (freq_hz * k).tdiv 10000 ∧ (freq_hz * k).tdiv 10000 ≤ 20000 * 15267 :=
    ⟨Int.tdiv_nonneg hmul.1 (by norm_num), (Int.tdiv_le_self _ hmul.1).trans hmul.2⟩
  refine ⟨?_, hquot⟩
  rw [mul_bind (fits64 (by omega))]
  exact div_eq (by norm_num) (fits64 (by omega))

/-- The word of a low cut of at most 20 kHz, whatever its slope. -/
theorem bfEqLcFreqRaw64_eq {freq_hz slope_db : ℤ} (hf : 0 ≤ freq_hz ∧ freq_hz ≤ 20000) :
    bfEqLcFreqRaw64 freq_hz slope_db = some (bfEqLcFreqRaw freq_hz slope_db) := by
  -- The slope's factor and the frequency make up `f`; what is left is one quotient.
  have hword : ∀ f : ℤ, 0 ≤ f → f ≤ 20000 * 15267 →
      (do
        let word ← div 64 (← add 64 (← mul 64 (← mul 64 11508 f) 11656) (← div 64 (← add 64 11656 f) 2))
          (← add 64 11656 f)
        return BitVec.ofInt 32 word) =
      some (.ofInt 32 ((11508 * f * 11656 + (11656 + f).tdiv 2).tdiv (11656 + f))) := by
    intro f h0 h1
    have hhalf : 0 ≤ (11656 + f).tdiv 2 ∧ (11656 + f).tdiv 2 ≤ 11656 + f :=
      ⟨Int.tdiv_nonneg (by omega) (by norm_num), Int.tdiv_le_self _ (by omega)⟩
    have hnonneg : 0 ≤ 11508 * f * 11656 + (11656 + f).tdiv 2 := by omega
    have hquot := Int.tdiv_nonneg hnonneg (show 0 ≤ 11656 + f by omega)
    have hquot' := Int.tdiv_le_self (11656 + f) hnonneg
    rw [mul_bind, mul_bind, add_bind, div_bind, add_bind, add_bind, div_bind]
    · rfl
    all_goals first | exact fits64 (by omega) | omega
  unfold bfEqLcFreqRaw64 bfEqLcFreqRaw
  by_cases hoff : freq_hz ≤ 0
  · rw [if_pos hoff, if_pos hoff]
    rfl
  · rw [if_neg hoff, if_neg hoff]
    -- The three slopes with a factor, and the one without.
    obtain ⟨h6, h6'⟩ := slopeFactor_bind (k := 15267) hf (by decide)
    obtain ⟨h18, h18'⟩ := slopeFactor_bind (k := 8061) hf (by decide)
    obtain ⟨h24, h24'⟩ := slopeFactor_bind (k := 6977) hf (by decide)
    rw [h6, h18, h24]
    split_ifs
    · exact hword _ h6'.1 h6'.2
    · exact hword _ h18'.1 h18'.2
    · exact hword _ h24'.1 h24'.2
    · exact hword _ hf.1 (by omega)

end BabyfacePro
