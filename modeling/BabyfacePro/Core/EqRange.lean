import BabyfacePro.Core.Card
import BabyfacePro.Eq.Range

/-!
# The EQ's parameters on runs of a card

The parameters of the strips stay within what their controls admit, whatever the steps: each put checks
its value before it is cached, and a failed upload leaves a checked value. With such parameters the words
of a strip can be computed at every rate.
-/

namespace BabyfacePro

/-- What the ranges of a strip's controls admit, and the defaults. -/
structure EqChannel.Admits (e : EqChannel) : Prop where
  type (band : Fin 3) : 0 ≤ e.band_type band ∧ e.band_type band ≤ 3
  band (band : Fin 3) : BandAdmits (e.band_freq band) (e.band_q band) (e.band_gain band)
  lowCut : 0 ≤ e.lc_hz ∧ e.lc_hz ≤ 20000
  slope : e.SlopeOk

/-- The words of an admitted strip have a value. -/
theorem EqChannel.recompute64_eq {e : EqChannel} (h : e.Admits) {fs : ℤ} (hfs : 32000 ≤ fs) :
    e.recompute64 fs = some (e.recompute fs) := by
  have hband : ∀ band, bfEqBandWords64 (e.band_type band) (e.band_freq band) (e.band_q band) (e.band_gain band)
      fs = some (bfEqBandWords (e.band_type band) (e.band_freq band) (e.band_q band) (e.band_gain band) fs) :=
    fun band => bfEqBandWords64_eq (h.band band) hfs
  have hwords : ∀ f : Fin 3 → Fin 5 → ℤ, ![f 0, f 1, f 2] = f := fun f => by
    funext band
    fin_cases band <;> rfl
  unfold EqChannel.recompute64 EqChannel.recompute
  simp only [hband, bfEqLcFreqRaw64_eq h.lowCut, Option.bind_eq_bind, Option.bind_some]
  rw [hwords fun band =>
    bfEqBandWords (e.band_type band) (e.band_freq band) (e.band_q band) (e.band_gain band) fs]
  rfl

/-! ## Every step keeps the parameters admitted -/

/-- The parameters of every strip are admitted. -/
def Chip.EqAdmits (c : Chip) : Prop := ∀ strip, (c.eq strip).Admits

/-- Another cache with the same EQ. -/
theorem Chip.EqAdmits.congr {c d : Chip} (h : c.EqAdmits) (he : d.eq = c.eq) : d.EqAdmits := by
  unfold Chip.EqAdmits
  rwa [he]

/-- The words are no parameters. -/
theorem EqChannel.Admits.recompute {e : EqChannel} (h : e.Admits) (fs : ℤ) : (e.recompute fs).Admits :=
  ⟨h.type, h.band, h.lowCut, h.slope⟩

/-- A strip takes the place of another. -/
theorem Chip.EqAdmits.update {c : Chip} (h : c.EqAdmits) (strip : Mic) {e : EqChannel} (he : e.Admits) :
    Chip.EqAdmits { c with eq := Function.update c.eq strip e } := fun strip' => by
  by_cases hs : strip' = strip
  · subst hs
    simpa only [Function.update_self] using he
  · simpa only [Function.update_of_ne hs] using h strip'

/-- The words of a strip are no parameters of it. -/
theorem Chip.EqAdmits.recomputeStrip {c : Chip} (h : c.EqAdmits) (strip : Mic) :
    (recomputeStrip strip c).EqAdmits := h.update strip ((h strip).recompute _)

/-- A value within the range of its control is admitted in its place. -/
theorem EqChannel.Admits.setParam {e : EqChannel} (h : e.Admits) {p : EqParam} {v : ℤ}
    (hv : p.min ≤ v ∧ v ≤ p.max) : (e.setParam p (p.stored v)).Admits := by
  obtain ⟨htype, hband, hlc, hslope⟩ := h
  -- The parameter that is put lies in its own range, the others are as before.
  cases p with
  | enable => exact ⟨htype, hband, hlc, hslope⟩
  | type b =>
    refine ⟨fun band => ?_, hband, hlc, hslope⟩
    show 0 ≤ Function.update e.band_type b v band ∧ Function.update e.band_type b v band ≤ 3
    rw [Function.update_apply]
    split_ifs
    · exact hv
    · exact htype band
  | freq b =>
    refine ⟨htype, fun band => ⟨?_, (hband band).q, (hband band).gain⟩, hlc, hslope⟩
    show 0 ≤ Function.update e.band_freq b v band ∧ Function.update e.band_freq b v band ≤ 20000
    rw [Function.update_apply]
    split_ifs
    · exact hv
    · exact (hband band).freq
  | q b =>
    refine ⟨htype, fun band => ⟨(hband band).freq, ?_, (hband band).gain⟩, hlc, hslope⟩
    show 5 ≤ Function.update e.band_q b v band ∧ Function.update e.band_q b v band ≤ 1000
    rw [Function.update_apply]
    split_ifs
    · exact hv
    · exact (hband band).q
  | gain b =>
    refine ⟨htype, fun band => ⟨(hband band).freq, (hband band).q, ?_⟩, hlc, hslope⟩
    show -240 ≤ Function.update e.band_gain b v band ∧ Function.update e.band_gain b v band ≤ 240
    rw [Function.update_apply]
    split_ifs
    · exact hv
    · exact (hband band).gain
  | lcFreq => exact ⟨htype, hband, hv, hslope⟩
  | lcSlope => exact ⟨htype, hband, hlc, EqParam.stored_slope v⟩

/-- An accepted put of a strip's parameter is one within the range of its control. -/
theorem Ctl.setting_eq {ctl : Ctl} {x : ElemValue} {strip : Mic} {p : EqParam} {v : ℤ}
    (h : ctl.setting x = some (.eq strip p v)) :
    ∃ nv, p.min ≤ nv ∧ nv ≤ p.max ∧ v = p.stored nv := by
  cases ctl <;> simp only [Ctl.setting, Option.ite_none_right_eq_some, Option.some.injEq,
    reduceCtorEq, and_false, Setting.eq.injEq] at h
  obtain ⟨hw, -, rfl, rfl⟩ := h
  rw [within, Bool.and_eq_true, decide_eq_true_eq, decide_eq_true_eq] at hw
  exact ⟨_, hw.1, hw.2, rfl⟩

/-- A setting that was accepted leaves parameters in their ranges, and so does its failure. -/
theorem Setting.eqAdmits {ctl : Ctl} {x : ElemValue} {s : Setting} (hs : ctl.setting x = some s) {c : Chip}
    (h : c.EqAdmits) : (s.cache c).EqAdmits ∧ (s.failed c).EqAdmits := by
  cases s with
  | eq strip p v =>
    obtain ⟨nv, h0, h1, rfl⟩ := Ctl.setting_eq hs
    have he : (cacheEq strip p (p.stored nv) c).EqAdmits :=
      (h.update strip ((h strip).setParam ⟨h0, h1⟩)).recomputeStrip strip
    exact ⟨he, he⟩
  | _ => exact ⟨h, h⟩

/-- The flag count is no parameter. -/
theorem Chip.EqAdmits.of_quiet {c d : Chip} (h : c.EqAdmits) (hq : d.quiet = c.quiet) : d.EqAdmits := by
  rw [Chip.quiet_eq hq]
  exact h

/-- The parameters' ranges do not depend on the flag count. -/
theorem respects_eqAdmits : Bus.Respects Chip.quiet fun c d => c.EqAdmits → d.EqAdmits :=
  fun _ _ _ _ hc hd h hs => (h (hs.of_quiet hc.symm)).of_quiet hd

/-- A put leaves the parameters in their ranges. -/
theorem bfPut_eqAdmits (k : Clock) (x : ElemValue) (ctl : Ctl) {w : World} (h : w.chip.EqAdmits) :
    (bfPut k x ctl w).2.chip.EqAdmits := by
  have hF : Bus.Framing fun c d : Chip => c.EqAdmits → d.EqAdmits := Bus.Framing.keeps _
  obtain ⟨s, hs, hh⟩ | ⟨pair, rfl⟩ | ⟨-, hr⟩ := bfPut_cases k x ctl
  · have hk : Keeps (fun c d : Chip => c.EqAdmits → d.EqAdmits) (bfPut k x ctl) :=
      hh.frames Chip.quiet_quiet hF respects_eqAdmits (fun c hc => (Setting.eqAdmits hs hc).1)
        (fun c hc => (Setting.eqAdmits hs hc).2) (fun _ _ _ => trivial) trivial
    exact hk.state w h
  · have hk : Keeps (fun c d : Chip => c.EqAdmits → d.EqAdmits) (bfPanelSelectPut k pair x.item) :=
      bfPanelSelectPut_frames hF (fun c d _ he hc => hc.congr he) k pair _
    exact hk.state w h
  · obtain ⟨e, -, hp⟩ := hr w
    rw [hp]
    exact h

/-- Every step keeps the parameters admitted. -/
theorem CardStep.eqAdmits {w w' : World} (hs : CardStep w w') (h : w.chip.EqAdmits) : w'.chip.EqAdmits := by
  have hF : Bus.Framing fun c d : Chip => c.EqAdmits → d.EqAdmits := Bus.Framing.keeps _
  have hpoll : ∀ p t (w : World), w.chip.EqAdmits → (babyfacePanelWork p t w).2.chip.EqAdmits :=
    fun p t w hw => (babyfacePanelWork_frames hF (fun c d _ _ he hc => hc.congr he)
      (fun _ _ _ _ hc => hc) (fun _ _ _ _ _ hc => hc) (fun _ _ hc => hc) (fun _ _ hc => hc) p t).state w hw
  exact hs.keeps respects_eqAdmits (fun k x ctl _ hw => bfPut_eqAdmits k x ctl hw) hpoll (fun _ _ _ hc => hc)
    (fun _ hc => hc) (fun _ hc => hc) (fun strip _ hc => hc.recomputeStrip strip) (fun _ _ hc => hc) h

/-- The default mixer has no part of the EQ. -/
theorem cacheDefaultMixer_eq (c : Chip) : (cacheDefaultMixer c).eq = c.eq := by
  have h : ∀ l : List Out, (l.foldl (fun c out => cacheDefaultMaster out c) c).eq = c.eq := fun l =>
    List.foldlRecOn (motive := fun d : Chip => d.eq = c.eq) l _ rfl fun _ hd _ _ => hd
  exact h _

/-- The defaults are admitted. -/
theorem readChip_eqAdmits (st : Option U8) (p : Params) : (readChip st p).EqAdmits := fun strip => by
  have he : (readChip st p).eq strip = { slope_db := 6, band_q := fun _ => 100 } := by cases st <;> rfl
  rw [he]
  exact ⟨fun _ => by norm_num, fun _ => ⟨by norm_num, by norm_num, by norm_num⟩, by norm_num, .inl rfl⟩

/-- So does a probe. -/
theorem Probed.eqAdmits {st0 : U8} {reprobe : Bool} {jiffies : ℤ} {p : Params} {w : World}
    (h : Probed st0 reprobe jiffies p w) : w.chip.EqAdmits := by
  obtain ⟨st, hq, -⟩ := babyfaceProbe_run h
  have hp : (probedChip st reprobe jiffies p).EqAdmits :=
    (readChip_eqAdmits st p).congr (cacheDefaultMixer_eq _)
  rw [← hq] at hp
  exact hp.of_quiet rfl

/-- The parameters of a strip are always in their ranges. -/
theorem Reachable.eqAdmits {w : World} (h : Reachable w) : w.chip.EqAdmits := by
  obtain ⟨_, _, _, _, w₀, hp, hr⟩ := h
  induction hr with
  | refl => exact hp.eqAdmits
  | tail _ hs ih => exact hs.eqAdmits ih

/-! ## The arithmetic on every state -/

/-- At every time, the parameters of a strip are what the controls admit, and computing its words at any of
the rates divides by no zero, stays within 64 bits, shifts by valid amounts, and gives words of 32 bits:
the ones of the exact arithmetic. -/
theorem eq_arithmetic_exact {w : World} (h : Reachable w) (strip : Mic) {r : BfRate} (hr : r ∈ bfRates) :
    (w.chip.eq strip).Admits ∧
      (w.chip.eq strip).recompute64 r.rate = some ((w.chip.eq strip).recompute r.rate) :=
  ⟨h.eqAdmits strip, EqChannel.recompute64_eq (h.eqAdmits strip) (rate_ge hr)⟩

/-- A card after puts of parameters of its first strip, each with its value or the item of its list. -/
def putEqs (l : List (EqParam × ℤ)) (w : World) : World :=
  l.foldl (fun w q => (bfPut clock0 ⟨fun _ => q.2, q.2.toNat⟩ (.eq 0 q.1) w).2) w

/-- Puts of parameters lead to a reachable state. -/
theorem putEqs_reachable (l : List (EqParam × ℤ)) {w : World} (h : Reachable w) : Reachable (putEqs l w) := by
  induction l generalizing w with
  | nil => exact h
  | cons q l ih => exact ih (h.step (.put _ _ _ w))

/-- A card with a bell, a low shelf and a high shelf in its first strip, at the ends of the ranges of gain and
Q, and with the steepest low cut. -/
def shapedCard : World :=
  putEqs [(.type 0, 1), (.freq 0, 20000), (.q 0, 1000), (.gain 0, 240),
    (.type 1, 2), (.freq 1, 1), (.q 1, 5), (.gain 1, -240),
    (.type 2, 3), (.freq 2, 15999), (.q 2, 5), (.gain 2, 240),
    (.lcFreq, 20000), (.lcSlope, 3), (.enable, 1)] (freshCardWith fun _ => true)

/-- The 64-bit arithmetic gives the exact words of that strip at 32 kHz. -/
theorem eq_arithmetic_exact_shaped :
    (shapedCard.chip.eq 0).Admits ∧
      (shapedCard.chip.eq 0).recompute64 32000 = some ((shapedCard.chip.eq 0).recompute 32000) ∧
      (∀ band k, ((shapedCard.chip.eq 0).recompute 32000).words band k =
        ![![180945399, 121677703, 106836211, 16871487], ![-267387947, 133170275, -268171573, 133953850],
          ![-178815431, 44597706, 89620006, -44597703]] band k) ∧
      ((shapedCard.chip.eq 0).recompute 32000).shared = 267799566 ∧
      ((shapedCard.chip.eq 0).recompute 32000).lc_raw = 73086730 := by
  have hreach : Reachable shapedCard := putEqs_reachable _ (freshCardWith_reachable _)
  obtain ⟨hadmits, hwords⟩ := eq_arithmetic_exact hreach 0 (r := ⟨32000, BF_ALT_1, 56, 8⟩) (by decide)
  exact ⟨hadmits, hwords, by decide +kernel, by decide +kernel, by decide +kernel⟩

end BabyfacePro
