import BabyfacePro.Regs
import Mathlib.Data.List.Range

/-!
# The DSP EQ's words

The fixed-point arithmetic that turns a band's type, frequency, Q and gain into the words of a
biquad, and a low cut into its word. Values carry 27 fractional bits. The 64-bit arithmetic of the
driver is exact here: divisions truncate, right shifts round down, and the words are narrowed to 32
bits at the end.
-/

namespace BabyfacePro

/-- `BF_EQ_Q27`: one, with 27 fractional bits. -/
def BF_EQ_Q27 : ℤ := 2 ^ 27

/-- `BF_EQ_LC_OFF`: the low-cut word for off. -/
def BF_EQ_LC_OFF : BitVec 32 := 0x04000000

/-- `bf_atan_tab`: the arc tangents of `2^-i`. -/
def bfAtanTab : List ℤ :=
  [0x6487ED5, 0x3B58CE1, 0x1F5B760, 0xFEADD5, 0x7FD56F, 0x3FFAAB, 0x1FFF55, 0xFFFEB, 0x7FFFD,
    0x40000, 0x20000, 0x10000, 0x8000, 0x4000, 0x2000, 0x1000, 0x800, 0x400, 0x200, 0x100, 0x80,
    0x40, 0x20, 0x10, 0x8, 0x4, 0x2, 0x1]

/-- The state of the CORDIC loop: the vector and the angle left to turn. -/
structure Cordic where
  x : ℤ
  y : ℤ
  z : ℤ

/-- One iteration of `bf_sincos`, with the table's entry `atan`. -/
def Cordic.step (s : Cordic) (i : ℕ) (atan : ℤ) : Cordic :=
  let d := if 0 ≤ s.z then 1 else -1
  ⟨s.x - d * (s.y >>> i), s.y + d * (s.x >>> i), s.z - d * atan⟩

/-- The iterations of `bf_sincos` from the `i`-th on. -/
def Cordic.run (s : Cordic) (i : ℕ) : List ℤ → Cordic
  | [] => s
  | atan :: tab => (s.step i atan).run (i + 1) tab

/-- `bf_sincos`: the sine and the cosine of an angle in `[0, pi/2]`. -/
def bfSincos (ang : ℤ) : ℤ × ℤ :=
  let s := (Cordic.mk 0x4DBA76D 0 ang).run 0 bfAtanTab
  (s.y, s.x)

/-- The rounded shift out of the 27 fractional bits of a product. -/
def round27 (x : ℤ) : ℤ := (x + 2 ^ 26) >>> (27 : ℕ)

/-- The terms of `bf_exp2`'s series from the `k`-th on, `n` of them: the sum of them all. -/
def exp2Series (rl : ℤ) (k : ℕ) (term e : ℤ) : ℕ → ℤ
  | 0 => e
  | n + 1 =>
    let term := (round27 (term * rl)).tdiv k
    exp2Series rl (k + 1) term (e + term) n

/-- `bf_exp2`: two to the power of `u`. -/
def bfExp2 (u : ℤ) : ℤ :=
  let n := u >>> (27 : ℕ)
  let r := u - n * 2 ^ 27
  let rl := round27 (r * 0x58B90C0)
  let e := exp2Series rl 1 BF_EQ_Q27 BF_EQ_Q27 10
  if 0 ≤ n then e * 2 ^ n.toNat else e >>> (-n).toNat

/-- The coefficients of a biquad before they are normalised. -/
structure Biquad where
  b0 : ℤ
  b1 : ℤ
  b2 : ℤ
  a0 : ℤ
  a1 : ℤ
  a2 : ℤ

/-- The angle of a band's frequency, `2 * pi * f / fs`. -/
def eqAngle (freq_hz fs : ℤ) : ℤ := ((freq_hz * BF_EQ_Q27).tdiv fs * 0x3243F6A9) >>> (27 : ℕ)

/-- The sine and cosine of an angle, which is first folded into `[0, pi/2]`. -/
def eqSincos (w0 : ℤ) : ℤ × ℤ :=
  let pi := 0x1921FB54
  let hpi := 0xC90FDAA
  let both := w0 > pi
  let t := if both then w0 - pi else w0
  let cflip := t > hpi
  let t := if cflip then pi - t else t
  let (s, c) := bfSincos t
  let (s, c) := if both then (-s, -c) else (s, c)
  (s, if cflip then -c else c)

/-- A band's bandwidth term: the sine of `w0 / (2 * Q)`, an angle held to `pi/2`. -/
def eqAlpha (w0 q100 : ℤ) : ℤ :=
  let hpi := 0xC90FDAA
  let u := (w0 * 100 + q100).tdiv (2 * q100)
  (bfSincos (if u > hpi then hpi else u)).1

/-- A bell's coefficients. -/
def eqBell (c alpha A : ℤ) : Biquad :=
  let ta := round27 (alpha * A)
  { b0 := BF_EQ_Q27 + ta
    b1 := -2 * c
    b2 := BF_EQ_Q27 - ta
    a0 := BF_EQ_Q27 + (alpha * BF_EQ_Q27 + A.tdiv 2).tdiv A
    a1 := -2 * c
    a2 := BF_EQ_Q27 - (alpha * BF_EQ_Q27 + A.tdiv 2).tdiv A }

/-- A shelf's coefficients, low or high. -/
def eqShelf (low : Bool) (c alpha A sq : ℤ) : Biquad :=
  let ap1 := A + BF_EQ_Q27
  let am1 := A - BF_EQ_Q27
  let cp0 := round27 (am1 * c)
  let cp1 := round27 (ap1 * c)
  let ab := round27 (2 * sq * alpha)
  if low then
    { b0 := round27 (A * (ap1 - cp0 + ab))
      b1 := round27 (2 * A * (am1 - cp1))
      b2 := round27 (A * (ap1 - cp0 - ab))
      a0 := ap1 + cp0 + ab
      a1 := -2 * (am1 + cp1)
      a2 := ap1 + cp0 - ab }
  else
    { b0 := round27 (A * (ap1 + cp0 + ab))
      b1 := round27 (-2 * A * (am1 + cp1))
      b2 := round27 (A * (ap1 + cp0 - ab))
      a0 := ap1 - cp0 + ab
      a1 := -2 * (am1 - cp1)
      a2 := ap1 - cp0 - ab }

/-- The five words of a biquad: both denominator coefficients over `a0`, both numerator coefficients
over `b0`, and the scale. -/
def Biquad.words (q : Biquad) : Fin 5 → ℤ :=
  ![toInt32 ((q.a1 * BF_EQ_Q27 + q.a0.tdiv 2).tdiv q.a0),
    toInt32 ((q.a2 * BF_EQ_Q27 + q.a0.tdiv 2).tdiv q.a0),
    toInt32 ((q.b1 * BF_EQ_Q27 + q.b0.tdiv 2).tdiv q.b0),
    toInt32 ((q.b2 * BF_EQ_Q27 + q.b0.tdiv 2).tdiv q.b0),
    toInt32 ((q.b0 * BF_EQ_Q27 + q.a0.tdiv 2).tdiv q.a0)]

/-- `bf_eq_band_words`: the words of one band. A band that is off, flat, or without a Q is the
identity. -/
def bfEqBandWords (type freq_hz q100 gain_x10 fs : ℤ) : Fin 5 → ℤ :=
  if type = 0 ∨ gain_x10 = 0 ∨ q100 ≤ 0 then
    ![0, 0, 0, 0, BF_EQ_Q27]
  else
    let w0 := eqAngle freq_hz fs
    let c := (eqSincos w0).2
    let alpha := eqAlpha w0 q100
    let A := bfExp2 (gain_x10 * 0x11021E)
    let sq := bfExp2 (gain_x10 * 0x8810F)
    if type = 1 then (eqBell c alpha A).words
    else (eqShelf (type = 2) c alpha A sq).words

/-- `bf_eq_lc_slope_byte`. -/
def bfEqLcSlopeByte (slope_db : ℤ) : U8 :=
  if slope_db = 6 then 0x01
  else if slope_db = 12 then 0x03
  else if slope_db = 18 then 0x07
  else if slope_db = 24 then 0x0F
  else 0

/-- `bf_eq_lc_freq_raw`: the low-cut word. -/
def bfEqLcFreqRaw (freq_hz slope_db : ℤ) : BitVec 32 :=
  if freq_hz ≤ 0 then
    BF_EQ_LC_OFF
  else
    let f :=
      if slope_db = 6 then (freq_hz * 15267).tdiv 10000
      else if slope_db = 18 then (freq_hz * 8061).tdiv 10000
      else if slope_db = 24 then (freq_hz * 6977).tdiv 10000
      else freq_hz
    .ofInt 32 ((11508 * f * 11656 + (11656 + f).tdiv 2).tdiv (11656 + f))

end BabyfacePro
