import BabyfacePro.Core.Announce
import BabyfacePro.Core.Contract
import BabyfacePro.Core.EqRange
import BabyfacePro.Core.Resync

/-!
# Saving and restoring a mixer

A saved mixer is the reading of every control that can be put, and restoring it puts the readings back, in
whatever order. The readings of a card stay within what the puts accept (`Reachable.ranged`); a put shows in
its own control, in the other trim of its pair and in the other loopbacks, and on those the saved readings
agree with it. So no put of a restore undoes another one (`restore_exact`).
-/

namespace BabyfacePro

open Bus.M (get modify each)

/-! ## The range of the cache -/

/-- The values of the cache are what the puts of their controls accept, and the two trims of a pair are
equal. The masters are left out: the OUT wheel may take them out of their range. -/
structure Chip.Ranged (c : Chip) : Prop where
  xpoint : ∀ out src side, ((c.xpoint out src side).toNat : ℤ) ≤ BF_FADER_TOP
  gain : ∀ mic, ((c.gain mic).toNat : ℤ) ≤ bfGainMaxDb mic
  trim : ∀ mic, -65 ≤ c.trim mic ∧ c.trim mic ≤ 6
  paired : ∀ mic, c.trim mic.sib = c.trim mic
  refLevel : c.ref_level ≤ BF_REF_LEVEL_BOOST
  pitch : -50 ≤ c.pitch ∧ c.pitch ≤ 50
  width : -100 ≤ c.width ∧ c.width ≤ 100
  fxSend : (c.fx_send.toNat : ℤ) ≤ 0x1000

/-- The values that have a range. -/
def Chip.rangedView (c : Chip) : (Out → Src → Side → U16) × (Mic → U8) × (Mic → ℤ) × ℕ × ℤ × ℤ × U16 :=
  (c.xpoint, c.gain, c.trim, c.ref_level, c.pitch, c.width, c.fx_send)

/-- Another cache with the same ranged values. -/
theorem Chip.Ranged.congr {c d : Chip} (h : c.Ranged) (hv : d.rangedView = c.rangedView) : d.Ranged := by
  simp only [Chip.rangedView, Prod.mk.injEq] at hv
  obtain ⟨hx, hg, ht, hr, hp, hw, hf⟩ := hv
  exact ⟨by rw [hx]; exact h.xpoint, by rw [hg]; exact h.gain, by rw [ht]; exact h.trim,
    by rw [ht]; exact h.paired, by rw [hr]; exact h.refLevel, by rw [hp]; exact h.pitch,
    by rw [hw]; exact h.width, by rw [hf]; exact h.fxSend⟩

/-- The ranges do not depend on the flag count. -/
theorem respects_ranged : Bus.Respects Chip.quiet fun c d => c.Ranged → d.Ranged := by
  have hquiet : ∀ {c d : Chip}, d.quiet = c.quiet → d.rangedView = c.rangedView := fun {c d} h =>
    show d.quiet.rangedView = c.quiet.rangedView by rw [h]
  exact fun _ _ _ _ hc hd h hs => (h (hs.congr (hquiet hc.symm))).congr (hquiet hd)

/-- A fader within its range. -/
theorem cacheXpoint_ranged {out : Out} {src : Src} {l r : U16} {c : Chip} (h : c.Ranged)
    (hl : (l.toNat : ℤ) ≤ BF_FADER_TOP) (hr : (r.toNat : ℤ) ≤ BF_FADER_TOP) :
    (cacheXpoint out src l r c).Ranged := by
  refine ⟨fun out' src' side => ?_, h.gain, h.trim, h.paired, h.refLevel, h.pitch, h.width, h.fxSend⟩
  -- The crosspoint that is put holds the two values, the others what they held.
  by_cases hat : out' = out ∧ src' = src
  · obtain ⟨rfl, rfl⟩ := hat
    simp only [cacheXpoint, Function.update_self]
    obtain rfl | rfl := left_or_right side
    · exact hl
    · exact hr
  · have hkeep : (cacheXpoint out src l r c).xpoint out' src' = c.xpoint out' src' := by
      unfold cacheXpoint
      by_cases ho : out' = out
      · subst ho
        have hs : src' ≠ src := fun he => hat ⟨rfl, he⟩
        simp only [Function.update_self, Function.update_of_ne hs]
      · simp only [Function.update_of_ne ho]
    rw [hkeep]
    exact h.xpoint out' src' side

/-- A gain within its input's range. -/
theorem gain_ranged {mic : Mic} {db : ℤ} {c : Chip} (h : c.Ranged) (h0 : 0 ≤ db) (hmax : db ≤ bfGainMaxDb mic) :
    Chip.Ranged { c with gain := Function.update c.gain mic (.ofInt 8 db) } := by
  refine ⟨h.xpoint, fun mic' => ?_, h.trim, h.paired, h.refLevel, h.pitch, h.width, h.fxSend⟩
  by_cases hm : mic' = mic
  · subst hm
    have hw : within db 0 (bfGainMaxDb mic') = true := within_iff.mpr ⟨h0, hmax⟩
    simp only [Function.update_self]
    rwa [gain_toNat hw]
  · simp only [Function.update_of_ne hm]
    exact h.gain mic'

/-- A trim within its range. -/
theorem cacheTrim_ranged {mic : Mic} {db : ℤ} {c : Chip} (h : c.Ranged) (hdb : -65 ≤ db ∧ db ≤ 6) :
    (cacheTrim mic db c).Ranged := by
  have hsib : ∀ m m' : Mic, m'.sib = m ∨ m'.sib = m.sib ↔ m' = m ∨ m' = m.sib := by decide
  have hat : ∀ mic' : Mic, (cacheTrim mic db c).trim mic' =
      if mic' = mic ∨ mic' = mic.sib then db else c.trim mic' := fun mic' => by
    unfold cacheTrim
    simp only [Function.update_apply]
    split_ifs <;> simp_all
  refine ⟨h.xpoint, h.gain, fun mic' => ?_, fun mic' => ?_, h.refLevel, h.pitch, h.width, h.fxSend⟩
  · rw [hat]
    split_ifs
    · exact hdb
    · exact h.trim mic'
  · rw [hat, hat]
    by_cases hm : mic' = mic ∨ mic' = mic.sib
    · rw [if_pos hm, if_pos ((hsib mic mic').mpr hm)]
    · rw [if_neg hm, if_neg fun hs => hm ((hsib mic mic').mp hs)]
      exact h.paired mic'

/-- An accepted put keeps the range, done or failed. -/
theorem Setting.ranged {ctl : Ctl} {x : ElemValue} {s : Setting} (hs : ctl.setting x = some s) {c : Chip}
    (h : c.Ranged) : (s.cache c).Ranged ∧ (s.failed c).Ranged := by
  -- Seven settings put a value that has a range, and check it first.
  cases ctl <;> simp only [Ctl.setting, Option.ite_none_right_eq_some, Option.some.injEq, reduceCtorEq] at hs
  case xpoint out src =>
    obtain ⟨hw, rfl⟩ := hs
    obtain ⟨hl, hr⟩ := within_two.mp hw
    refine ⟨cacheXpoint_ranged h ?_ ?_, h⟩
    · rw [ofInt16_toNat hl (by decide)]
      exact hl.2
    · rw [ofInt16_toNat hr (by decide)]
      exact hr.2
  case gain mic =>
    obtain ⟨hw, rfl⟩ := hs
    obtain ⟨h0, hmax⟩ := within_iff.mp hw
    exact ⟨gain_ranged h h0 hmax, h⟩
  case trim mic =>
    obtain ⟨hw, rfl⟩ := hs
    exact ⟨cacheTrim_ranged h (within_iff.mp hw), h⟩
  case refLevel =>
    obtain ⟨hle, rfl⟩ := hs
    exact ⟨⟨h.xpoint, h.gain, h.trim, h.paired, hle, h.pitch, h.width, h.fxSend⟩, h⟩
  case pitch =>
    obtain ⟨hw, rfl⟩ := hs
    exact ⟨⟨h.xpoint, h.gain, h.trim, h.paired, h.refLevel, within_iff.mp hw, h.width, h.fxSend⟩, h⟩
  case width =>
    obtain ⟨hw, rfl⟩ := hs
    exact ⟨⟨h.xpoint, h.gain, h.trim, h.paired, h.refLevel, h.pitch, within_iff.mp hw, h.fxSend⟩, h⟩
  case fxSend =>
    obtain ⟨hw, rfl⟩ := hs
    refine ⟨⟨h.xpoint, h.gain, h.trim, h.paired, h.refLevel, h.pitch, h.width, ?_⟩, h⟩
    have hv := within_iff.mp hw
    show ((BitVec.ofInt 16 (x.value 0)).toNat : ℤ) ≤ 0x1000
    rw [ofInt16_toNat hv (by decide)]
    exact hv.2
  -- The other puts change no value that has a range.
  case master => obtain ⟨-, rfl⟩ := hs; exact ⟨h.congr rfl, h⟩
  case mute => subst hs; exact ⟨h.congr rfl, h⟩
  case phase => subst hs; exact ⟨h.congr rfl, h⟩
  case split => subst hs; exact ⟨h.congr rfl, h⟩
  case phantom => subst hs; exact ⟨h.congr rfl, h⟩
  case pad => subst hs; exact ⟨h.congr rfl, h⟩
  case loopback => subst hs; exact ⟨h.congr rfl, h⟩
  case an12 => subst hs; exact ⟨h.congr rfl, h⟩
  case clock => obtain ⟨-, rfl⟩ := hs; exact ⟨h.congr rfl, h.congr rfl⟩
  case optical => obtain ⟨-, rfl⟩ := hs; exact ⟨h.congr rfl, h.congr rfl⟩
  case link => subst hs; exact ⟨h.congr rfl, h⟩
  case ms => subst hs; exact ⟨h.congr rfl, h⟩
  case dim => subst hs; exact ⟨h.congr rfl, h.congr rfl⟩
  case eq => obtain ⟨-, rfl⟩ := hs; exact ⟨h.congr rfl, h.congr rfl⟩

/-- A put leaves every value in its range. -/
theorem bfPut_ranged (k : Clock) (x : ElemValue) (ctl : Ctl) {w : World} (h : w.chip.Ranged) :
    (bfPut k x ctl w).2.chip.Ranged := by
  have hF : Bus.Framing fun c d : Chip => c.Ranged → d.Ranged := Bus.Framing.keeps _
  obtain ⟨s, hs, hh⟩ | ⟨pair, rfl⟩ | ⟨-, hr⟩ := bfPut_cases k x ctl
  · have hk : Keeps (fun c d : Chip => c.Ranged → d.Ranged) (bfPut k x ctl) :=
      hh.frames Chip.quiet_quiet hF respects_ranged (fun c hc => (Setting.ranged hs hc).1)
        (fun c hc => (Setting.ranged hs hc).2) (fun _ _ _ => trivial) trivial
    exact hk.state w h
  · have hk : Keeps (fun c d : Chip => c.Ranged → d.Ranged) (bfPanelSelectPut k pair x.item) :=
      bfPanelSelectPut_frames hF (fun c d hm _ hc => hc.congr (by unfold Chip.rangedView; rw [hm])) k pair _
    exact hk.state w h
  · obtain ⟨e, -, hp⟩ := hr w
    rw [hp]
    exact h

/-! ### The wheel keeps the range -/

/-- So does what the panel caches. -/
theorem rangedFrame : WheelFrame (fun c d : Chip => c.Ranged → d.Ranged) fun _ => True :=
  ⟨Bus.Framing.keeps _, fun _ _ h => h.congr rfl, fun _ _ => trivial, fun _ _ => trivial⟩

/-- A turn on a gain is clamped to its range. -/
theorem bfPanelGainWheel_ranged (delta : ℤ) : Keeps (fun c d => c.Ranged → d.Ranged) (bfPanelGainWheel delta) := by
  have hR := rangedFrame.framing
  have hmax : ∀ mic, 0 ≤ bfGainMaxDb mic := by decide
  have hclick : ∀ mic, Keeps (fun c d => c.Ranged → d.Ranged) (gainClick delta mic) := fun mic => by
    unfold gainClick
    refine hR.bind hR.get fun c => hR.bind (post_frames hR trivial) fun _ => hR.ite _ (fun _ => ?_) fun _ => hR.pure _
    exact announce_frames hR (fun d hd => gain_ranged hd (le_max_left _ _)
      (max_le (hmax mic) (min_le_right _ _))) _
  unfold bfPanelGainWheel
  exact hR.bind hR.get fun c => hR.ite _ (fun _ => hR.pure _) fun _ => hR.each _ fun mic _ => hclick mic

/-- The level of the MIX wheel is a level of the crosspoints' control. -/
theorem bfFaderDb2ToRaw_le {db2 : ℤ} (hlow : BF_FADER_DB2_INF ≤ db2) (hhigh : db2 ≤ 12) :
    ((bfFaderDb2ToRaw db2).toNat : ℤ) ≤ BF_FADER_TOP := by
  have hall : ∀ n : Fin 143, ((bfFaderDb2ToRaw ((n.val : ℤ) - 130)).toNat : ℤ) ≤ BF_FADER_TOP := by decide
  have hlow' : -130 ≤ db2 := hlow
  have hn := hall ⟨(db2 + 130).toNat, by omega⟩
  rwa [show (((db2 + 130).toNat : ℕ) : ℤ) - 130 = db2 by omega] at hn

/-- A turn on the mix is clamped as well. -/
theorem bfPanelMixWheel_ranged (delta : ℤ) : Keeps (fun c d => c.Ranged → d.Ranged) (bfPanelMixWheel delta) := by
  have hR := rangedFrame.framing
  -- A display is no cached value.
  have hdisp : ∀ db2 mic, Keeps (fun c d => c.Ranged → d.Ranged) (mixDisp db2 mic) := fun db2 mic => by
    unfold mixDisp
    exact hR.bind hR.get fun c => hR.ite _ (fun _ => hR.bind (post_frames hR trivial) fun _ =>
      hR.modify fun _ hc => hc.congr rfl) fun _ => hR.pure _
  -- A click writes a level that the turn has clamped to the range of the faders.
  have hclick : ∀ out db2 src, BF_FADER_DB2_INF ≤ db2 → db2 ≤ 12 →
      Keeps (fun c d => c.Ranged → d.Ranged) (mixClick out db2 src) := fun out db2 src hlow hhigh => by
    have hle := bfFaderDb2ToRaw_le hlow hhigh
    unfold mixClick
    refine hR.bind rangedFrame.nextFlag fun _ => hR.bind (post_frames hR trivial) fun _ =>
      hR.bind (post_frames hR trivial) fun _ => ?_
    refine hR.bind (announce_frames hR (fun _ hc => cacheXpoint_ranged hc hle hle) _) fun _ => ?_
    split
    · exact hdisp _ _
    · exact hR.pure _
  unfold bfPanelMixWheel
  refine hR.bind hR.get fun c => hR.bind (hR.modify fun _ hc => hc.congr rfl) fun _ => hR.each _ fun src _ => ?_
  exact hclick _ _ src (le_max_left _ _) (max_le (by decide) (min_le_right _ _))

/-- The clicks of a readback. -/
theorem tickWheel_ranged (st : Readback) (now : ℤ) :
    Keeps (fun c d => c.Ranged → d.Ranged) (tickWheel st now) := by
  have hR := rangedFrame.framing
  have hwheel : ∀ (c : Chip) n, c.Ranged → Chip.Ranged { c with panel_wheel := n } := fun _ _ hc => hc.congr rfl
  unfold tickWheel
  refine hR.bind hR.get fun c => hR.ite _ (fun _ => ?_) fun _ => hR.pure _
  refine hR.bind (announce_frames hR (fun c => hwheel c _) _) fun _ => ?_
  refine hR.ite _ (fun _ => bfPanelMixWheel_ranged _) fun _ => ?_
  refine hR.ite _ (fun _ => bfPanelBalanceWheel_frames rangedFrame (fun _ _ _ _ hc => hc.congr rfl) _) fun _ => ?_
  refine hR.ite _ (fun _ => bfPanelOutWheel_frames rangedFrame (fun _ _ _ _ hc => hc.congr rfl)
    (fun _ _ _ _ _ _ hc => hc.congr rfl) _ _) fun _ => ?_
  exact hR.ite _ (fun _ => bfPanelGainWheel_ranged _) fun _ => hR.pure _

/-- A poll leaves every value in its range. -/
theorem babyfacePanelWork_ranged (p : Poll) (t : ℤ) :
    Keeps (fun c d => c.Ranged → d.Ranged) (babyfacePanelWork p t) := by
  have h := rangedFrame
  have hR := h.framing
  -- The panel's own fields have no range.
  have hpanel : ∀ c d : Chip, d.toStream = c.toStream → d.toMixer = c.toMixer → d.eq = c.eq →
      c.Ranged → d.Ranged := fun c d _ hm _ hc => hc.congr (by unfold Chip.rangedView; rw [hm])
  have hhead : Keeps (fun c d => c.Ranged → d.Ranged) (decodeHead p) :=
    hR.bind (tickButton_frames hR (fun _ _ hc => hc.congr rfl) _) fun _ => hR.bind (tickWheel_ranged _ _) fun _ =>
      bfPanelOutResync_frames h (fun _ hc => hc.congr rfl) _
  have hset : Keeps (fun c d => c.Ranged → d.Ranged) (tickSet p.st) :=
    tickSet_frames hR (fun _ _ hc => hc.congr rfl) (fun _ _ hc => hc.congr rfl) (fun _ => trivial)
      (fun _ => trivial) _
  -- The stages in their order, each of which keeps the ranges.
  have hdecode : Keeps (fun c d => c.Ranged → d.Ranged) (decode p) := by
    rw [decode_eq]
    exact hR.bind hhead fun _ => hR.bind (decodeMid_panel h trivial hpanel p) fun _ => hR.bind hset fun _ =>
      decodeTail_panel h ⟨trivial, trivial, trivial⟩ hpanel p
  have htick : Keeps (fun c d => c.Ranged → d.Ranged) (bfPanelTick p) := by
    unfold bfPanelTick
    exact hR.bind (hR.attempt (hR.recv (X := fun _ => True) trivial ())) fun _ => hR.when _ fun _ =>
      hR.bind hR.get fun c => hR.ite _ (fun _ => hdecode) fun _ => hR.modify fun _ hc => hc.congr rfl
  unfold babyfacePanelWork
  exact hR.bind hR.get fun _ => hR.when _ fun _ => hR.bind htick fun _ => hR.modify fun _ hc => hc.congr rfl

/-- Every step keeps the range. -/
theorem CardStep.ranged {w w' : World} (hs : CardStep w w') (h : w.chip.Ranged) : w'.chip.Ranged :=
  hs.keeps respects_ranged (fun k x ctl _ hw => bfPut_ranged k x ctl hw)
    (fun p t w hw => (babyfacePanelWork_ranged p t).state w hw) (fun _ _ _ hc => hc.congr rfl)
    (fun _ hc => hc.congr rfl) (fun _ hc => hc.congr rfl) (fun _ _ hc => hc.congr rfl)
    (fun _ _ hc => hc.congr rfl) h

/-- So does a probe. -/
theorem Probed.ranged {st0 : U8} {reprobe : Bool} {jiffies : ℤ} {p : Params} {w : World}
    (h : Probed st0 reprobe jiffies p w) : w.chip.Ranged := by
  obtain ⟨st, hq, -⟩ := babyfaceProbe_run h
  have hview : w.chip.rangedView = (probedChip st reprobe jiffies p).rangedView :=
    show w.chip.quiet.rangedView = _ by rw [hq]
  -- The defaults of the mixer lie in their ranges.
  have hlevel : ∀ src, ((defaultLevel src).toNat : ℤ) ≤ BF_FADER_TOP := by decide
  have hmax : ∀ mic, 0 ≤ bfGainMaxDb mic := by decide
  have hzero : (-65 : ℤ) ≤ 0 ∧ (0 : ℤ) ≤ 6 := by decide
  have hpitch : (-50 : ℤ) ≤ 0 ∧ (0 : ℤ) ≤ 50 := by decide
  have hwidth : (-100 : ℤ) ≤ 0 ∧ (0 : ℤ) ≤ 100 := by decide
  have hfx : (((0 : U16).toNat : ℕ) : ℤ) ≤ 0x1000 := by decide
  refine Chip.Ranged.congr (c := probedChip st reprobe jiffies p) ?_ hview
  -- The level comes from the byte that was read, and is one of the first two items.
  have href : (probedChip st reprobe jiffies p).ref_level ≤ BF_REF_LEVEL_BOOST := by
    cases st with
    | none => exact Nat.zero_le _
    | some st0 =>
      show (cachePreamp st0 (probeChip p)).ref_level ≤ _
      unfold cachePreamp
      dsimp only
      split <;> decide
  cases st <;> exact ⟨fun _ src _ => hlevel src, fun mic => hmax mic, fun _ => hzero, fun _ => rfl, href,
    hpitch, hwidth, hfx⟩

/-- At all times the cached values are ones that the puts accept. -/
theorem Reachable.ranged {w : World} (h : Reachable w) : w.chip.Ranged := by
  obtain ⟨_, _, _, _, w₀, hp, hr⟩ := h
  induction hr with
  | refl => exact hp.ranged
  | tail _ hs ih => exact hs.ranged ih

/-! ## A saved reading -/

/-- The controls that are saved: all that can be put but the panel's selection. -/
def Ctl.isSaved : Ctl → Bool
  | .panelSelect _ => false
  | ctl => !ctl.isReading

/-- The reading of a control as a value to put: the values of its channels, and its item. -/
def savedValue (c : Chip) (ctl : Ctl) : ElemValue where
  value ch := (bfGet c ctl).getD ch.val 0
  item := ((bfGet c ctl).headD 0).toNat

/-- What the control of an admitted parameter shows is in the control's range. -/
theorem EqChannel.Admits.shown {e : EqChannel} (h : e.Admits) (p : EqParam) :
    p.min ≤ p.shown (e.param p) ∧ p.shown (e.param p) ≤ p.max := by
  cases p with
  | enable =>
    show (0 : ℤ) ≤ (if e.on then 1 else 0) ∧ (if e.on then (1 : ℤ) else 0) ≤ 1
    cases e.on <;> decide
  | type band => exact h.type band
  | freq band => exact (h.band band).freq
  | q band => exact (h.band band).q
  | gain band => exact (h.band band).gain
  | lcFreq => exact h.lowCut
  | lcSlope =>
    show 0 ≤ EqParam.lcSlope.shown e.slope_db ∧ EqParam.lcSlope.shown e.slope_db ≤ 3
    obtain hs | hs | hs | hs := h.slope <;> rw [hs] <;> decide

/-- The value that a put of an EQ control takes from a reading. -/
theorem arg_shown {p : EqParam} {v : ℤ} (h : p.min ≤ v ∧ v ≤ p.max) : p.arg v v.toNat = v := by
  have hbounds : -(2 ^ 31) ≤ p.min ∧ p.max < 2 ^ 31 := by
    cases p <;> norm_num [EqParam.min, EqParam.max]
  have hsame : toInt32 v = v := toInt32_of_le h hbounds.1 hbounds.2
  unfold EqParam.arg
  cases he : p.isEnum with
  | false => exact hsame
  | true =>
    have hnat : ((v.toNat : ℕ) : ℤ) = v := by
      refine Int.toNat_of_nonneg ?_
      cases p <;> first | exact h.1 | cases he
    rw [if_pos rfl, hnat, hsame]

/-- A card's put accepts its own reading. -/
theorem savedValue_setting {c : Chip} (h : c.Ranged) (hm : StepsOk c) (heq : c.EqAdmits) {ctl : Ctl}
    (hctl : ctl.isSaved = true) : ∃ s, ctl.setting (savedValue c ctl) = some s ∧ s.reading = bfGet c ctl := by
  -- Words, switches and items survive the way through a control's value.
  have hword : ∀ v : U16, BitVec.ofInt 16 (v.toNat : ℤ) = v := fun v => by
    rw [BitVec.ofInt_natCast, BitVec.ofNat_toNat, BitVec.setWidth_eq]
  have hon : ∀ b : Bool, decide (ofBool b ≠ 0) = b := by decide
  have hoff : ∀ b : Bool, (!decide (ofBool b = 0)) = b := by decide
  have hitem : ∀ b : Bool, decide ((ofBool b).toNat ≠ 0) = b ∧ (ofBool b).toNat ≤ 1 := by decide
  have hnat : ∀ n : ℕ, 0 ≤ (n : ℤ) := Int.natCast_nonneg
  cases ctl <;> try cases hctl
  case master out =>
    refine ⟨_, if_pos (within_two.mpr ⟨⟨hnat _, hm out 0⟩, hnat _, hm out 1⟩), ?_⟩
    show [((BitVec.ofInt 16 ((c.master out 0).toNat : ℤ)).toNat : ℤ),
      ((BitVec.ofInt 16 ((c.master out 1).toNat : ℤ)).toNat : ℤ)] = _
    rw [hword, hword]
    rfl
  case xpoint out src =>
    refine ⟨_, if_pos (within_two.mpr ⟨⟨hnat _, h.xpoint out src 0⟩, hnat _, h.xpoint out src 1⟩), ?_⟩
    show [((BitVec.ofInt 16 ((c.xpoint out src 0).toNat : ℤ)).toNat : ℤ),
      ((BitVec.ofInt 16 ((c.xpoint out src 1).toNat : ℤ)).toNat : ℤ)] = _
    rw [hword, hword]
    rfl
  case fxSend =>
    refine ⟨_, if_pos (within_iff.mpr ⟨hnat _, h.fxSend⟩), ?_⟩
    show [((BitVec.ofInt 16 (c.fx_send.toNat : ℤ)).toNat : ℤ)] = _
    rw [hword]
    rfl
  case trim mic =>
    have hsame : toInt32 (c.trim mic) = c.trim mic := toInt32_of_le (h.trim mic) (by decide) (by decide)
    refine ⟨_, if_pos (?_ : within (toInt32 (c.trim mic)) (-65) 6 = true), ?_⟩
    · rw [hsame]
      exact within_iff.mpr (h.trim mic)
    · exact congrArg (fun v : ℤ => [v]) hsame
  case gain mic =>
    have hmax : ∀ mic, bfGainMaxDb mic < 2 ^ 31 := by decide
    have hrange : 0 ≤ ((c.gain mic).toNat : ℤ) ∧ ((c.gain mic).toNat : ℤ) ≤ bfGainMaxDb mic :=
      ⟨hnat _, h.gain mic⟩
    have hsame : toInt32 ((c.gain mic).toNat : ℤ) = (c.gain mic).toNat :=
      toInt32_of_le hrange (by decide) (hmax mic)
    have hv : (savedValue c (.gain mic)).value 0 = (c.gain mic).toNat := rfl
    refine ⟨.gain mic (c.gain mic).toNat, ?_, rfl⟩
    simp only [Ctl.setting, hv, hsame]
    exact if_pos (within_iff.mpr hrange)
  case refLevel =>
    have hlevel : (savedValue c .refLevel).item = c.ref_level := Int.toNat_natCast _
    exact ⟨_, if_pos (hlevel.trans_le h.refLevel), congrArg (fun n : ℕ => [(n : ℤ)]) hlevel⟩
  case pitch => exact ⟨.pitch c.pitch, if_pos (within_iff.mpr h.pitch), rfl⟩
  case width => exact ⟨.width c.width, if_pos (within_iff.mpr h.width), rfl⟩
  case eq strip p =>
    have hrange := (heq strip).shown p
    have harg : p.arg ((savedValue c (.eq strip p)).value 0) (savedValue c (.eq strip p)).item =
        p.shown ((c.eq strip).param p) := arg_shown hrange
    refine ⟨.eq strip p (p.stored (p.shown ((c.eq strip).param p))), ?_, ?_⟩
    · simp only [Ctl.setting, harg]
      exact if_pos (within_iff.mpr hrange)
    · exact congrArg (fun v : ℤ => [v]) (shown_stored hrange)
  -- The switches and items need no range.
  case clock => exact ⟨_, if_pos (hitem _).2, congrArg (fun b => [ofBool b]) (hitem _).1⟩
  case optical => exact ⟨_, if_pos (hitem _).2, congrArg (fun b => [ofBool b]) (hitem _).1⟩
  case mute out => exact ⟨_, rfl, congrArg (fun b => [ofBool b, ofBool b]) (hoff _)⟩
  case loopback out => exact ⟨_, rfl, congrArg (fun b => [ofBool b, ofBool b]) (hon _)⟩
  case phase mic => exact ⟨_, rfl, congrArg (fun b => [ofBool b]) (hon _)⟩
  case split pb => exact ⟨_, rfl, congrArg (fun b => [ofBool b]) (hon _)⟩
  case phantom mic => exact ⟨_, rfl, congrArg (fun b => [ofBool b]) (hon _)⟩
  case pad mic => exact ⟨_, rfl, congrArg (fun b => [ofBool b]) (hon _)⟩
  case an12 => exact ⟨_, rfl, congrArg (fun b => [ofBool b]) (hon _)⟩
  case link => exact ⟨_, rfl, congrArg (fun b => [ofBool b]) (hon _)⟩
  case ms => exact ⟨_, rfl, congrArg (fun b => [ofBool b]) (hon _)⟩
  case dim => exact ⟨_, rfl, congrArg (fun b => [ofBool b]) (hon _)⟩

/-! ## A restore -/

/-- The put of a saved reading, at a time. -/
def restoreOne (c : Chip) (op : Clock × Ctl) : Usb Unit := do
  let _ ← bfPut op.1 (savedValue c op.2) op.2

/-- The puts of a saved mixer, in the order of the list. -/
def restoreMixer (c : Chip) (ops : List (Clock × Ctl)) : Usb Unit := each ops (restoreOne c)

/-- What a put of a saved reading shows in another control is what was saved of that one. -/
theorem notes_agree {s : Chip} (hs : s.Ranged) (hl : s.OneLoopback) {ctl : Ctl} {st : Setting}
    (hset : ctl.setting (savedValue s ctl) = some st) {c : Chip} {g : Ctl} (hg : g ∈ st.notes c) :
    bfGet (st.cache c) g = bfGet s g := by
  have hon : ∀ b : Bool, decide (ofBool b ≠ 0) = b := by decide
  cases ctl <;> simp only [Ctl.setting, Option.ite_none_right_eq_some, Option.some.injEq, reduceCtorEq] at hset
  case trim mic =>
    obtain ⟨-, rfl⟩ := hset
    rw [show g = .trim mic.sib from List.mem_singleton.mp hg]
    -- The pair's other microphone gets the same trim, which is what was saved of it.
    have hsame : toInt32 (s.trim mic) = s.trim mic := toInt32_of_le (hs.trim mic) (by decide) (by decide)
    show [(cacheTrim mic (toInt32 (s.trim mic)) c).trim mic.sib] = [s.trim mic.sib]
    have hown : (cacheTrim mic (s.trim mic) c).trim mic.sib = s.trim mic := Function.update_self ..
    rw [hsame, hs.paired, hown]
  case loopback out =>
    obtain rfl : st = .loopback out (s.loopback out) := hset.symm.trans (congrArg _ (hon _))
    unfold Setting.notes loopbackNotes at hg
    dsimp only at hg
    split at hg
    swap
    · cases hg
    · rename_i prev _
      split at hg
      swap
      · cases hg
      · rename_i hother
        simp only [Bool.and_eq_true, decide_eq_true_eq] at hother
        obtain ⟨honly, hne⟩ := hother
        rw [List.mem_singleton.mp hg]
        -- The saved mixer has one loopback at most, which is the one that is put.
        have hsaved : s.loopback prev = false := by
          rw [← Bool.not_eq_true]
          exact fun hp => hne (hl prev out hp honly)
        have hcache : (cacheLoopback out (s.loopback out) c).loopback prev = false := by
          unfold cacheLoopback
          simp only [Function.update_of_ne hne]
        exact congrArg (fun b => [ofBool b, ofBool b]) (hcache.trans hsaved.symm)
  -- The other puts notify no other control.
  case master => obtain ⟨-, rfl⟩ := hset; cases hg
  case mute => subst hset; cases hg
  case xpoint => obtain ⟨-, rfl⟩ := hset; cases hg
  case phase => subst hset; cases hg
  case split => subst hset; cases hg
  case phantom => subst hset; cases hg
  case pad => subst hset; cases hg
  case refLevel => obtain ⟨-, rfl⟩ := hset; cases hg
  case gain => obtain ⟨-, rfl⟩ := hset; cases hg
  case pitch => obtain ⟨-, rfl⟩ := hset; cases hg
  case an12 => subst hset; cases hg
  case clock => obtain ⟨-, rfl⟩ := hset; cases hg
  case optical => obtain ⟨-, rfl⟩ := hset; cases hg
  case link => subst hset; cases hg
  case ms => subst hset; cases hg
  case dim => subst hset; cases hg
  case width => obtain ⟨-, rfl⟩ := hset; cases hg
  case fxSend => obtain ⟨-, rfl⟩ := hset; cases hg
  case eq => obtain ⟨-, rfl⟩ := hset; cases hg

/-- A mixer that can be saved and restored: what holds of the cache at all times, and the masters in their
range. -/
structure Chip.Savable (s : Chip) : Prop where
  ranged : s.Ranged
  steps : StepsOk s
  eqAdmits : s.EqAdmits
  oneLoopback : s.OneLoopback

/-- A state in which a control reads as it was saved, if it is one that is saved. -/
def ReadsSaved (s : Chip) (ctl : Ctl) (w : World) : Prop := ctl.isSaved = true → bfGet w.chip ctl = bfGet s ctl

/-- The put of a saved reading sets its control to it, and takes it from no other one. -/
theorem restoreOne_setting {s : Chip} (hs : s.Savable) {w : World} (hw : Reachable w) (hl : Live w)
    {op : Clock × Ctl} (hop : op.2.isSaved = true) :
    ∃ w', restoreOne s op w = (.ok (), w') ∧ (Reachable w' ∧ Live w') ∧ bfGet w'.chip op.2 = bfGet s op.2 ∧
      (bfGet w.chip op.2 = bfGet s op.2 → w' = w) ∧
      ∀ g, bfGet w.chip g = bfGet s g → bfGet w'.chip g = bfGet s g := by
  obtain ⟨k, ctl⟩ := op
  obtain ⟨st, hset, hread⟩ := savedValue_setting hs.ranged hs.steps hs.eqAdmits hop
  have hslope : ∀ strip, (w.chip.quiet.eq strip).SlopeOk := hw.sound.slope
  have hcached := Setting.cached_iff hset hslope
  rw [bfGet_quiet, hread] at hcached
  obtain ⟨hsame, hp⟩ | ⟨hsame, w', hp, hc, -, hl'⟩ := (bfPut_handles k hset).run_live hl
  -- The control reads as saved already, and the put is its short cut.
  · refine ⟨w, ?_, ⟨hw, hl⟩, hcached.mp hsame, fun _ => rfl, fun g hg => hg⟩
    show (do let _ ← bfPut k (savedValue s ctl) ctl : Usb Unit) w = _
    rw [Bus.M.bind_of_ok hp]
    rfl
  -- Otherwise the put goes through, with no failed transfer.
  · have hrun : restoreOne s (k, ctl) w = (.ok (), w') := by
      show (do let _ ← bfPut k (savedValue s ctl) ctl : Usb Unit) w = _
      rw [Bus.M.bind_of_ok hp]
      rfl
    have hreach : Reachable w' := by
      have hstep := hw.step (.put k (savedValue s ctl) ctl w)
      rwa [hp] at hstep
    have hget : ∀ g, bfGet w'.chip g = bfGet (st.cache w.chip.quiet) g := bfGet_of_quiet hc
    refine ⟨w', hrun, ⟨hreach, hl'⟩, ?_, fun hr => ?_, fun g hg => ?_⟩
    · rw [hget, bfGet_cache hset, hread]
    · rw [hcached.mpr hr] at hsame
      cases hsame
    · -- What the put changes besides its own control is notified.
      by_cases hown : g = ctl
      · rw [hown, hget, bfGet_cache hset, hread]
      · by_cases hkept : bfGet (st.cache w.chip.quiet) g = bfGet w.chip g
        · rw [hget, hkept, hg]
        · rw [hget]
          exact notes_agree hs.ranged hs.oneLoopback hset
            (Setting.announced (c := w.chip.quiet) hset hw.oneLoopback hsame hown (by rwa [bfGet_quiet]))

/-- A put of the panel's selection shows in no control that is saved. -/
theorem restoreOne_select {s : Chip} (hs : s.SelTracked) {w : World} (hw : Reachable w) (hl : Live w)
    (k : Clock) (pair : Fin 3) :
    ∃ w', restoreOne s (k, .panelSelect pair) w = (.ok (), w') ∧ (Reachable w' ∧ Live w') ∧
      ∀ g, g.isSaved = true → bfGet w'.chip g = bfGet w.chip g := by
  have hitem : (savedValue s (.panelSelect pair)).item ≤ 4 := by
    obtain ⟨hlow, hhigh⟩ := hs.range pair
    show (if 0 ≤ s.panel_sel pair then s.panel_sel pair else 4).toNat ≤ 4
    split <;> omega
  generalize hv : savedValue s (.panelSelect pair) = x at hitem
  obtain ⟨n, w', hrun, husb⟩ : ∃ n w', bfPut k x (.panelSelect pair) w = (.ok n, w') ∧ w'.usb = w.usb := by
    show ∃ n w', panelSelectRest (selectRestore k w.chip) pair x.item w = (.ok n, w') ∧ w'.usb = w.usb
    -- Within the guard time the selection is ignored, later it is put; either way no error.
    cases hi : selectRestore k w.chip && w.chip.reprobe with
    | true =>
      refine ⟨0, w, ?_, rfl⟩
      unfold panelSelectRest
      rw [Bus.M.bind_of_ok (Bus.M.get_run w), Bus.M.ite_run, if_neg (by omega), Bus.M.ite_run, if_pos hi]
      rfl
    | false =>
      obtain ⟨w', hrun, -, -, husb⟩ := panelSelectRest_run hitem hi
      exact ⟨_, w', hrun, husb⟩
  have hreach : Reachable w' := by
    have hstep := hw.step (.put k x (.panelSelect pair) w)
    rwa [hrun] at hstep
  -- The selection is a field of the panel, and no saved control reads one.
  have hframe : Keeps (fun c d : Chip => ∀ g, Ctl.isSaved g = true → bfGet d g = bfGet c g)
      (bfPanelSelectPut k pair x.item) := by
    refine bfPanelSelectPut_frames ⟨fun _ _ _ => rfl, fun h h' g hg => (h' g hg).trans (h g hg)⟩
      (fun c d hm he g hg => ?_) k pair x.item
    obtain ⟨ds, dm, dp, df, de⟩ := d
    cases hm
    cases he
    cases g <;> first | rfl | cases hg
  have hkeep := hframe.state w
  rw [show bfPanelSelectPut k pair x.item w = (.ok n, w') from hrun] at hkeep
  refine ⟨w', ?_, ⟨hreach, fun i => by rw [husb]; exact hl i⟩, hkeep⟩
  show (do let _ ← bfPut k (savedValue s (.panelSelect pair)) (.panelSelect pair) : Usb Unit) w = _
  rw [hv, Bus.M.bind_of_ok hrun]
  rfl

/-- Putting saved readings back is exact. Take any two states of a card or of two cards, the first with its
masters in their range: with no failed transfer, and in whatever order, at whatever times and however often the
readings of the first are put to the second, every put returns no error; then each control that was put reads
as it was saved, no control that read so before has lost it, and putting any of them again sends nothing and
changes nothing. -/
theorem restore_exact {s w : World} (hs : Reachable s) (hm : StepsOk s.chip) (hw : Reachable w) (hl : Live w)
    {ops : List (Clock × Ctl)} (hops : ∀ op ∈ ops, op.2.isReading = false) :
    ∃ w', restoreMixer s.chip ops w = (.ok (), w') ∧
      (∀ ctl, ctl.isSaved = true → (∃ k, (k, ctl) ∈ ops) ∨ bfGet w.chip ctl = bfGet s.chip ctl →
        bfGet w'.chip ctl = bfGet s.chip ctl) ∧
      ∀ ops' : List (Clock × Ctl), (∀ op ∈ ops', op.2.isSaved = true ∧ ∃ k, (k, op.2) ∈ ops) →
        restoreMixer s.chip ops' w' = (.ok (), w') := by
  have hsave : s.chip.Savable := ⟨hs.ranged, hm, hs.eqAdmits, hs.oneLoopback⟩
  -- One put: a selection, or a control that is saved.
  have hone : ∀ op ∈ ops, ∀ w, Reachable w ∧ Live w → ∃ w', restoreOne s.chip op w = (.ok (), w') ∧
      (Reachable w' ∧ Live w') ∧ ReadsSaved s.chip op.2 w' ∧
        ∀ b : Clock × Ctl, ReadsSaved s.chip b.2 w → ReadsSaved s.chip b.2 w' := by
    rintro ⟨k, ctl⟩ hop w ⟨hw, hl⟩
    by_cases hsel : ∃ pair, ctl = .panelSelect pair
    · obtain ⟨pair, rfl⟩ := hsel
      obtain ⟨w', hrun, hw', hkeep⟩ := restoreOne_select hs.tracked hw hl k pair
      have hnone : ReadsSaved s.chip (.panelSelect pair) w' := fun ho => nomatch ho
      exact ⟨w', hrun, hw', hnone, fun (b : Clock × Ctl) hb hg => (hkeep b.2 hg).trans (hb hg)⟩
    · have hctl : ctl.isSaved = true := by
        have hread := hops _ hop
        cases ctl <;> first | rfl | exact absurd ⟨_, rfl⟩ hsel | cases hread
      obtain ⟨w', hrun, hw', hget, -, hkeep⟩ := @restoreOne_setting _ hsave _ hw hl (k, ctl) hctl
      exact ⟨w', hrun, hw', fun _ => hget, fun (b : Clock × Ctl) hb hg => hkeep b.2 (hb hg)⟩
  -- The list of puts settles, as none takes back what another has set.
  obtain ⟨w', hrun, ⟨hw', hl'⟩, hput, hkeep⟩ := Bus.each_settles
    (D := fun (op : Clock × Ctl) w => ReadsSaved s.chip op.2 w) hone ⟨hw, hl⟩
  refine ⟨w', hrun, fun ctl hctl hor => ?_, fun ops' hops' => ?_⟩
  · obtain ⟨k, hmem⟩ | hread := hor
    · exact hput _ hmem hctl
    · exact hkeep (⟨0, 0, 0⟩, ctl) (fun _ => hread) hctl
  · -- Each put of what is read already changes nothing.
    have hagain : ∀ op ∈ ops', restoreOne s.chip op w' = (.ok (), w') := fun op hop => by
      obtain ⟨hctl, k, hmem⟩ := hops' op hop
      obtain ⟨w₁, hrun₁, -, -, hsame, -⟩ := restoreOne_setting hsave hw' hl' hctl
      have hread : ReadsSaved s.chip op.2 w' := hput (k, op.2) hmem
      rw [hrun₁, hsame (hread hctl)]
    unfold restoreMixer
    induction ops' with
    | nil => rfl
    | cons op l ih =>
      rw [Bus.M.each_cons, Bus.M.bind_of_ok (hagain op List.mem_cons_self)]
      exact ih (fun b hb => hops' b (List.mem_cons_of_mem op hb)) fun b hb => hagain b (List.mem_cons_of_mem op hb)

/-- A card whose first trim was put to -10 dB. -/
def trimmedCard : World := (bfPut clock0 ⟨fun _ => -10, 0⟩ (.trim 0) (freshCardWith fun _ => true)).2

/-- A new card to which the saved trim of the second input of the pair is put reads the first one's too. -/
theorem restore_exact_trim : ∃ w', restoreMixer trimmedCard.chip [(clock0, .trim 1), (clock0, .trim 0)]
    (freshCardWith fun _ => true) = (.ok (), w') ∧ bfGet w'.chip (.trim 0) = bfGet trimmedCard.chip (.trim 0) := by
  have hs : Reachable trimmedCard := (freshCardWith_reachable _).step (.put _ _ _ _)
  have hops : ∀ op ∈ [(clock0, Ctl.trim 1), (clock0, Ctl.trim 0)], op.2.isReading = false := by decide
  obtain ⟨w', hrun, hread, -⟩ := restore_exact hs (by unfold StepsOk; decide +kernel)
    (freshCardWith_reachable _) (fun _ => rfl) hops
  exact ⟨w', hrun, hread _ rfl (.inl ⟨clock0, by simp⟩)⟩

end BabyfacePro
