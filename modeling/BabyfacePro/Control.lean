import BabyfacePro.Core.Probe

/-!
# The controls

The get and put handlers of every control, in one table each, and the values that a put accepts. An
accepted put is a `Setting`; what it does to the cache and the registers is stated once for all
controls (`bfPut_handles`).
-/

namespace BabyfacePro

open Bus.M (throw)

/-- `struct snd_ctl_elem_value`: the integers of a control's channels, and its enumerated item. -/
structure ElemValue where
  value : Side → ℤ := fun _ => 0
  item : ℕ := 0

/-- The bit of a phantom power switch. -/
def phantomBit (mic : Fin 2) : U16 := if mic = 0 then BF_PREAMP_48V_MIC1 else BF_PREAMP_48V_MIC2

/-- The bit of a pad switch. -/
def padBit (mic : Fin 2) : U16 := if mic = 0 then BF_PREAMP_PAD_MIC1 else BF_PREAMP_PAD_MIC2

/-- A Boolean as a control reports it. -/
def ofBool (b : Bool) : ℤ := if b then 1 else 0

/-- What the get handler of a control returns: the values of its channels, or its item. -/
def bfGet (c : Chip) : Ctl → List ℤ
  | .master out => [(c.master out 0).toNat, (c.master out 1).toNat]
  | .mute out => [ofBool (!c.muted out), ofBool (!c.muted out)]
  | .xpoint out src => [(c.xpoint out src 0).toNat, (c.xpoint out src 1).toNat]
  | .phase mic => [ofBool (c.phase mic)]
  | .split pb => [ofBool (c.split pb)]
  | .trim mic => [c.trim mic]
  | .phantom mic => [ofBool (c.preamp &&& phantomBit mic ≠ 0)]
  | .pad mic => [ofBool (c.preamp &&& padBit mic ≠ 0)]
  | .refLevel => [c.ref_level]
  | .gain mic => [(c.gain mic).toNat]
  | .pitch => [c.pitch]
  | .loopback out => [ofBool (c.loopback out), ofBool (c.loopback out)]
  | .an12 => [ofBool c.an12]
  | .clock => [ofBool c.clock_optical]
  | .optical => [ofBool c.optical_spdif]
  | .link => [ofBool c.linked]
  | .ms => [ofBool c.ms_proc]
  | .dim => [ofBool c.dim]
  | .width => [c.width]
  | .fxSend => [c.fx_send.toNat]
  | .eq strip p => [p.shown ((c.eq strip).param p)]
  | .panelButton => [c.panel_button]
  | .panelWheel => [c.panel_wheel]
  | .panelIn => [c.panel_in]
  | .panelOut => [c.panel_out]
  | .panelMix => [ofBool c.panel_mix]
  | .panelDim => [ofBool c.panel_dim]
  | .panelSelect pair => [if 0 ≤ c.panel_sel pair then c.panel_sel pair else 4]
  | .dimPress => [c.dim_press_count]

/-- The put handler of a control. The panel's readings have none. -/
def bfPut (k : Clock) (x : ElemValue) : Ctl → Usb ℕ
  | .master out => bfMasterPut out (x.value 0) (x.value 1)
  | .mute out => bfMutePut out (x.value 0)
  | .xpoint out src => bfXpointPut out src (x.value 0) (x.value 1)
  | .phase mic => bfPhasePut mic (x.value 0)
  | .split pb => bfSplitPut pb (x.value 0)
  | .trim mic => bfTrimPut mic (x.value 0)
  | .phantom mic => bfPhantomPut (phantomBit mic) (x.value 0)
  | .pad mic => bfPhantomPut (padBit mic) (x.value 0)
  | .refLevel => bfReflevelPut x.item
  | .gain mic => bfGainPut mic (x.value 0)
  | .pitch => bfPitchPut (x.value 0)
  | .loopback out => bfLoopbackPut out (x.value 0)
  | .an12 => bfAn12Put (x.value 0)
  | .clock => bfClockPut x.item
  | .optical => bfOpticalPut x.item
  | .link => bfLinkPut (x.value 0)
  | .ms => bfMsPut (x.value 0)
  | .dim => bfDimPut (x.value 0)
  | .width => bfWidthPut (x.value 0)
  | .fxSend => bfFxSendPut (x.value 0)
  | .eq strip p => bfEqPut strip p (x.value 0) x.item
  | .panelSelect pair => bfPanelSelectPut k pair x.item
  | .panelButton | .panelWheel | .panelIn | .panelOut | .panelMix | .panelDim | .dimPress =>
    throw .eperm

/-- A put that its handler accepts: a control with a value in its range. -/
inductive Setting where
  | master (out : Out) (l r : U16)
  | mute (out : Out) (muted : Bool)
  | xpoint (out : Out) (src : Src) (l r : U16)
  | phase (mic : Mic) (invert : Bool)
  | split (pb : Out) (on : Bool)
  | trim (mic : Mic) (db : ℤ)
  | preampBit (bit : U16) (on : Bool)
  | refLevel (item : ℕ)
  | gain (mic : Mic) (db : ℤ)
  | pitch (p : ℤ)
  | loopback (out : Out) (on : Bool)
  | an12 (on : Bool)
  | clock (on : Bool)
  | optical (spdif : Bool)
  | link (linked : Bool)
  | ms (on : Bool)
  | dim (on : Bool)
  | width (w : ℤ)
  | fxSend (v : U16)
  | eq (strip : Mic) (p : EqParam) (v : ℤ)

/-- The value of a control within two bounds. -/
def within (v lo hi : ℤ) : Bool := lo ≤ v && v ≤ hi

/-- The setting that a put asks for, if the handler accepts its value. The panel's selection is not
a setting of the mixer. -/
def Ctl.setting (x : ElemValue) : Ctl → Option Setting
  | .master out =>
    if within (x.value 0) 0 BF_MASTER_STEP_MAX && within (x.value 1) 0 BF_MASTER_STEP_MAX then
      some (.master out (.ofInt 16 (x.value 0)) (.ofInt 16 (x.value 1)))
    else none
  | .mute out => some (.mute out (x.value 0 = 0))
  | .xpoint out src =>
    if within (x.value 0) 0 BF_FADER_TOP && within (x.value 1) 0 BF_FADER_TOP then
      some (.xpoint out src (.ofInt 16 (x.value 0)) (.ofInt 16 (x.value 1)))
    else none
  | .phase mic => some (.phase mic (x.value 0 ≠ 0))
  | .split pb => some (.split pb (x.value 0 ≠ 0))
  | .trim mic =>
    if within (toInt32 (x.value 0)) (-65) 6 then some (.trim mic (toInt32 (x.value 0))) else none
  | .phantom mic => some (.preampBit (phantomBit mic) (x.value 0 ≠ 0))
  | .pad mic => some (.preampBit (padBit mic) (x.value 0 ≠ 0))
  | .refLevel => if x.item ≤ BF_REF_LEVEL_BOOST then some (.refLevel x.item) else none
  | .gain mic =>
    if within (toInt32 (x.value 0)) 0 (bfGainMaxDb mic) then some (.gain mic (toInt32 (x.value 0)))
    else none
  | .pitch => if within (x.value 0) (-50) 50 then some (.pitch (x.value 0)) else none
  | .loopback out => some (.loopback out (x.value 0 ≠ 0))
  | .an12 => some (.an12 (x.value 0 ≠ 0))
  | .clock => if x.item ≤ 1 then some (.clock (x.item ≠ 0)) else none
  | .optical => if x.item ≤ 1 then some (.optical (x.item ≠ 0)) else none
  | .link => some (.link (x.value 0 ≠ 0))
  | .ms => some (.ms (x.value 0 ≠ 0))
  | .dim => some (.dim (x.value 0 ≠ 0))
  | .width => if within (x.value 0) (-100) 100 then some (.width (x.value 0)) else none
  | .fxSend => if within (x.value 0) 0 0x1000 then some (.fxSend (.ofInt 16 (x.value 0))) else none
  | .eq strip p =>
    if within (p.arg (x.value 0) x.item) p.min p.max then
      some (.eq strip p (p.stored (p.arg (x.value 0) x.item)))
    else none
  | _ => none

namespace Setting

/-- Whether the cache has the value already. -/
def cached (s : Setting) (c : Chip) : Bool :=
  match s with
  | .master out l r => l == c.master out 0 && r == c.master out 1
  | .mute out muted => muted == c.muted out
  | .xpoint out src l r => l == c.xpoint out src 0 && r == c.xpoint out src 1
  | .phase mic invert => invert == c.phase mic
  | .split pb on => on == c.split pb
  | .trim mic db => db == c.trim mic
  | .preampBit bit on => on == decide (c.preamp &&& bit ≠ 0)
  | .refLevel item => item == c.ref_level
  | .gain mic db => db == (c.gain mic).toNat
  | .pitch p => p == c.pitch
  | .loopback out on => on == c.loopback out
  | .an12 on => on == c.an12
  | .clock on => on == c.clock_optical
  | .optical spdif => spdif == c.optical_spdif
  | .link linked => linked == c.linked
  | .ms on => on == c.ms_proc
  | .dim on => on == c.dim
  | .width w => w == c.width
  | .fxSend v => v == c.fx_send
  | .eq strip p v => (c.eq strip).param p == v

/-- The cache with the value. -/
def cache (s : Setting) (c : Chip) : Chip :=
  match s with
  | .master out l r => cacheMaster out l r c
  | .mute out muted => { c with muted := Function.update c.muted out muted }
  | .xpoint out src l r => cacheXpoint out src l r c
  | .phase mic invert => { c with phase := Function.update c.phase mic invert }
  | .split pb on => { c with split := Function.update c.split pb on }
  | .trim mic db => cacheTrim mic db c
  | .preampBit bit on => { c with preamp := setBit c.preamp bit on }
  | .refLevel item => cacheRefLevel item c
  | .gain mic db => { c with gain := Function.update c.gain mic (.ofInt 8 db) }
  | .pitch p => { c with pitch := p }
  | .loopback out on => cacheLoopback out on c
  | .an12 on => { c with an12 := on }
  | .clock on => { c with clock_optical := on }
  | .optical spdif => { c with optical_spdif := spdif }
  | .link linked => { c with linked := linked }
  | .ms on => { c with ms_proc := on }
  | .dim on => setDim on c
  | .width w => { c with width := w }
  | .fxSend v => { c with fx_send := v }
  | .eq strip p v => cacheEq strip p v c

/-- The state that a failed put leaves. -/
def failed (s : Setting) (c : Chip) : Chip :=
  match s with
  | .clock on => { c with clock_optical := !on }
  | .optical spdif => { c with optical_spdif := !spdif }
  | .dim on => { setDim on c with dim := c.dim }
  | .eq strip p v => cacheEq strip p v c
  | _ => c

/-- The writes of the put. -/
def writes (s : Setting) (c : Chip) : List (Reg × Datum) :=
  match s with
  | .master out l r => outRegs out (c.muted out) (out = 1 && c.dim) l r
  | .mute out muted => outRegs out muted (out = 1 && c.dim) (c.master out 0) (c.master out 1)
  | .xpoint out src l r => xpointRegs out src l r
  | .phase mic invert => phaseRegs mic invert c
  | .split pb on => splitRegs pb on c
  | .trim mic db => trimRegs mic (db * 2)
  | .preampBit bit on => preampRegs { c with preamp := setBit c.preamp bit on }
  | .refLevel item => preampRegs (cacheRefLevel item c)
  | .gain mic db => gainRegs mic db
  | .pitch p => pitchRegs p c
  | .loopback out on => loopbackRegs out on
  | .an12 on => linkRegs c.linked on c
  | .clock on => settingsRegs { c with clock_optical := on }
  | .optical spdif => settingsRegs { c with optical_spdif := spdif }
  | .link linked => linkRegs linked c.an12 c
  | .ms on => msPutRegs on c
  | .dim on => dimRegs on (setDim on c)
  | .width w => widthRegs w
  | .fxSend v => fxRegs v
  | .eq strip p v => eqRegs strip ((cacheEq strip p v c).eq strip)

/-- The controls besides its own that the put notifies. -/
def notes (s : Setting) (c : Chip) : List Ctl :=
  match s with
  | .trim mic _ => [.trim mic.sib]
  | .loopback out on => loopbackNotes out on c
  | _ => []

/-- The place in the flag cycle decides neither what is cached nor what is written. -/
theorem cached_quiet (s : Setting) (c : Chip) : s.cached c.quiet = s.cached c := by cases s <;> rfl

/-- The transfers of a setting do not depend on the flag count. -/
theorem writes_quiet (s : Setting) (c : Chip) : s.writes c.quiet = s.writes c := by cases s <;> rfl

end Setting

/-- Every put handler does what its setting says. -/
theorem bfPut_handles (k : Clock) {x : ElemValue} {ctl : Ctl} {s : Setting}
    (h : ctl.setting x = some s) :
    Handles (bfPut k x ctl) s.cached s.writes s.cache s.failed s.notes := by
  -- Each case is the handler's own lemma, at the values that it accepts.
  cases ctl <;> simp only [Ctl.setting, Option.ite_none_right_eq_some, Option.some.injEq, within,
    Bool.and_eq_true, decide_eq_true_eq, reduceCtorEq] at h
  case master out => obtain ⟨⟨hl, hr⟩, rfl⟩ := h; exact bfMasterPut_handles out hl hr
  case mute out => subst h; exact bfMutePut_handles out _
  case xpoint out src => obtain ⟨⟨hl, hr⟩, rfl⟩ := h; exact bfXpointPut_handles out src hl hr
  case phase mic => subst h; exact bfPhasePut_handles mic _
  case split pb => subst h; exact bfSplitPut_handles pb _
  case trim mic => obtain ⟨hv, rfl⟩ := h; exact bfTrimPut_handles mic hv
  case phantom mic => subst h; exact bfPhantomPut_handles _ _
  case pad mic => subst h; exact bfPhantomPut_handles _ _
  case refLevel => obtain ⟨hv, rfl⟩ := h; exact bfReflevelPut_handles hv
  case gain mic => obtain ⟨hv, rfl⟩ := h; exact bfGainPut_handles mic hv
  case pitch => obtain ⟨hv, rfl⟩ := h; exact bfPitchPut_handles hv
  case loopback out => subst h; exact bfLoopbackPut_handles out _
  case an12 => subst h; exact bfAn12Put_handles _
  case clock => obtain ⟨hv, rfl⟩ := h; exact bfClockPut_handles hv
  case optical => obtain ⟨hv, rfl⟩ := h; exact bfOpticalPut_handles hv
  case link => subst h; exact bfLinkPut_handles _
  case ms => subst h; exact bfMsPut_handles _
  case dim => subst h; exact bfDimPut_handles _
  case width => obtain ⟨hv, rfl⟩ := h; exact bfWidthPut_handles hv
  case fxSend => obtain ⟨hv, rfl⟩ := h; exact bfFxSendPut_handles hv
  case eq strip p => obtain ⟨hv, rfl⟩ := h; exact bfEqPut_handles strip p hv

/-- The panel's readings, which cannot be put. -/
def Ctl.isReading : Ctl → Bool
  | .panelButton | .panelWheel | .panelIn | .panelOut | .panelMix | .panelDim | .dimPress => true
  | _ => false

/-- A value that the handler does not accept is refused before anything else. -/
theorem bfPut_refused (k : Clock) {x : ElemValue} {ctl : Ctl} (h : ctl.setting x = none)
    (hs : ∀ pair, ctl ≠ .panelSelect pair) (w : World) :
    ∃ e, (e = .einval ∨ e = .eperm ∧ ctl.isReading = true) ∧ bfPut k x ctl w = (.error e, w) := by
  -- A handler that checks its value first stops there, with nothing written.
  have hthrow : ∀ {m : Usb ℕ} {p : Prop} [Decidable p], p →
      (if p then throw Errno.einval else m) w = (.error .einval, w) := fun hp => by
    rw [if_pos hp, Bus.M.throw_run]
  cases ctl <;> simp only [Ctl.setting, ite_eq_right_iff, reduceCtorEq, imp_false, within,
    Bool.and_eq_true, decide_eq_true_eq, not_and, not_le] at h
  case master out => exact ⟨_, .inl rfl, hthrow (by grind)⟩
  case xpoint out src => exact ⟨_, .inl rfl, hthrow (by grind)⟩
  case trim mic => exact ⟨_, .inl rfl, hthrow (by grind)⟩
  case refLevel => exact ⟨_, .inl rfl, hthrow (by grind)⟩
  case gain mic => exact ⟨_, .inl rfl, hthrow (by grind)⟩
  case pitch => exact ⟨_, .inl rfl, hthrow (by grind)⟩
  case clock => exact ⟨_, .inl rfl, hthrow (by grind)⟩
  case optical => exact ⟨_, .inl rfl, hthrow (by grind)⟩
  case width => exact ⟨_, .inl rfl, hthrow (by grind)⟩
  case fxSend => exact ⟨_, .inl rfl, hthrow (by grind)⟩
  case eq strip p => exact ⟨_, .inl rfl, hthrow (by grind)⟩
  case panelSelect pair => exact absurd rfl (hs pair)
  -- What is left only reads.
  all_goals exact ⟨_, .inr ⟨rfl, rfl⟩, rfl⟩

/-! ## Readings -/

/-- The low cut's slope is one of the four that its control offers. -/
def EqChannel.SlopeOk (e : EqChannel) : Prop :=
  e.slope_db = 6 ∨ e.slope_db = 12 ∨ e.slope_db = 18 ∨ e.slope_db = 24

/-- The slope's items are the four slopes. -/
theorem EqParam.stored_slope (v : ℤ) : EqParam.lcSlope.stored v = 6 ∨ EqParam.lcSlope.stored v = 12 ∨
    EqParam.lcSlope.stored v = 18 ∨ EqParam.lcSlope.stored v = 24 := by
  unfold EqParam.stored
  simp only
  split
  · exact .inl rfl
  split
  · exact .inr (.inl rfl)
  split
  · exact .inr (.inr (.inl rfl))
  · exact .inr (.inr (.inr rfl))

/-- A slope that is put is one of the four. -/
theorem Ctl.setting_slope {ctl : Ctl} {x : ElemValue} {strip : Mic} {v : ℤ}
    (h : ctl.setting x = some (.eq strip .lcSlope v)) : v = 6 ∨ v = 12 ∨ v = 18 ∨ v = 24 := by
  cases ctl <;> simp only [Ctl.setting, Option.ite_none_right_eq_some, Option.some.injEq,
    reduceCtorEq, and_false, Setting.eq.injEq] at h
  obtain ⟨-, -, rfl, rfl⟩ := h
  exact EqParam.stored_slope _

/-- What the get handler returns once the value is cached. -/
def Setting.reading : Setting → List ℤ
  | .master _ l r | .xpoint _ _ l r => [l.toNat, r.toNat]
  | .mute _ muted => [ofBool (!muted), ofBool (!muted)]
  | .loopback _ on => [ofBool on, ofBool on]
  | .phase _ on | .split _ on | .preampBit _ on | .an12 on | .clock on | .optical on | .link on
  | .ms on | .dim on => [ofBool on]
  | .trim _ v | .gain _ v | .pitch v | .width v => [v]
  | .refLevel item => [item]
  | .fxSend v => [v.toNat]
  | .eq _ p v => [p.shown v]

/-- A switched bit reads as it was switched. -/
theorem setBit_and (preamp : U16) {bit : U16} (on : Bool) (h : bit ≠ 0) :
    decide (setBit preamp bit on &&& bit ≠ 0) = on := by
  unfold setBit
  cases on with
  | true =>
    have hb : (preamp ||| bit) &&& bit = bit := by ext i; simp; grind
    rw [if_pos rfl, hb]
    exact decide_eq_true h
  | false =>
    have hb : preamp &&& ~~~bit &&& bit = 0 := by ext i; simp
    rw [if_neg (by decide), hb]
    rfl

/-- The bit of 48V is one. -/
theorem phantomBit_ne (mic : Fin 2) : phantomBit mic ≠ 0 := by revert mic; decide

/-- The bit of the pad is one. -/
theorem padBit_ne (mic : Fin 2) : padBit mic ≠ 0 := by revert mic; decide

/-- A gain in range fits its byte. -/
theorem gain_toNat {mic : Mic} {db : ℤ} (h : within db 0 (bfGainMaxDb mic) = true) :
    ((BitVec.ofInt 8 db).toNat : ℤ) = db := by
  have hmax : bfGainMaxDb mic ≤ 65 := by unfold bfGainMaxDb BF_GAIN_MAX_DB; split <;> decide
  simp only [within, Bool.and_eq_true, decide_eq_true_eq] at h
  rw [BitVec.toNat_ofInt]
  omega

/-- A parameter's value in the cache. -/
theorem param_cacheEq {strip : Mic} {p : EqParam} {v : ℤ} (h : within v p.min p.max = true)
    (c : Chip) : ((cacheEq strip p (p.stored v) c).eq strip).param p = p.stored v := by
  simp only [within, Bool.and_eq_true, decide_eq_true_eq] at h
  unfold cacheEq recomputeStrip
  cases p with
  | enable =>
    have hv : v = 0 ∨ v = 1 := by
      simp only [EqParam.min, EqParam.max] at h
      omega
    obtain rfl | rfl := hv <;> simp [EqChannel.recompute, EqChannel.setParam, EqChannel.param,
      EqParam.stored]
  | _ => simp [EqChannel.recompute, EqChannel.setParam, EqChannel.param]

/-- Once a value is cached, the get handler returns it. -/
theorem bfGet_cache {ctl : Ctl} {x : ElemValue} {s : Setting} (h : ctl.setting x = some s) (c : Chip) :
    bfGet (s.cache c) ctl = s.reading := by
  cases ctl <;> simp only [Ctl.setting, Option.ite_none_right_eq_some, Option.some.injEq,
    reduceCtorEq] at h
  case master out =>
    obtain ⟨-, rfl⟩ := h
    simp only [Setting.cache, Setting.reading, bfGet, cacheMaster, Function.update_self]
    rfl
  case mute out =>
    subst h
    simp only [Setting.cache, Setting.reading, bfGet, Function.update_self]
  case xpoint out src =>
    obtain ⟨-, rfl⟩ := h
    simp only [Setting.cache, Setting.reading, bfGet, cacheXpoint, Function.update_self]
    rfl
  case phase mic =>
    subst h
    simp only [Setting.cache, Setting.reading, bfGet, Function.update_self]
  case split pb =>
    subst h
    simp only [Setting.cache, Setting.reading, bfGet, Function.update_self]
  case trim mic =>
    obtain ⟨-, rfl⟩ := h
    simp only [Setting.cache, Setting.reading, bfGet, cacheTrim, Function.update_of_ne mic.ne_sib,
      Function.update_self]
  case phantom mic =>
    subst h
    exact congrArg (fun b => [ofBool b]) (setBit_and _ _ (phantomBit_ne mic))
  case pad mic =>
    subst h
    exact congrArg (fun b => [ofBool b]) (setBit_and _ _ (padBit_ne mic))
  case gain mic =>
    obtain ⟨hv, rfl⟩ := h
    simp only [Setting.cache, Setting.reading, bfGet, Function.update_self, gain_toNat hv]
  case loopback out =>
    subst h
    simp only [Setting.cache, Setting.reading, bfGet, cacheLoopback, Function.update_self]
  case eq strip p =>
    obtain ⟨hv, rfl⟩ := h
    show [p.shown (((cacheEq strip p _ c).eq strip).param p)] = [p.shown _]
    rw [param_cacheEq hv]
  -- The others are one field of the cache.
  case refLevel => obtain ⟨-, rfl⟩ := h; rfl
  case pitch => obtain ⟨-, rfl⟩ := h; rfl
  case an12 => subst h; rfl
  case clock => obtain ⟨-, rfl⟩ := h; rfl
  case optical => obtain ⟨-, rfl⟩ := h; rfl
  case link => subst h; rfl
  case ms => subst h; rfl
  case dim => subst h; rfl
  case width => obtain ⟨-, rfl⟩ := h; rfl
  case fxSend => obtain ⟨-, rfl⟩ := h; rfl

/-- The items of the slope are read back as they were put. -/
theorem shown_inj {p : EqParam} {a b : ℤ}
    (ha : p = .lcSlope → a = 6 ∨ a = 12 ∨ a = 18 ∨ a = 24)
    (hb : p = .lcSlope → b = 6 ∨ b = 12 ∨ b = 18 ∨ b = 24) : p.shown a = p.shown b ↔ a = b := by
  cases p with
  | lcSlope =>
    obtain rfl | rfl | rfl | rfl := ha rfl <;> obtain rfl | rfl | rfl | rfl := hb rfl <;> decide
  | _ => rfl

/-- A switch that reads as it is to be switched. -/
theorem switch_iff {a b : Bool} : (a == b) = true ↔ [ofBool b] = [ofBool a] := by
  cases a <;> cases b <;> decide

/-- A switch of two channels that reads as it is to be switched. -/
theorem switch₂_iff {a b : Bool} : (a == b) = true ↔ [ofBool b, ofBool b] = [ofBool a, ofBool a] := by
  cases a <;> cases b <;> decide

/-- A level that reads as it is to be set. -/
theorem level_iff {a b : ℤ} : (a == b) = true ↔ [b] = [a] := by
  rw [beq_iff_eq, List.cons_eq_cons, and_iff_left rfl]
  exact eq_comm

/-- A word that reads as it is to be set. -/
theorem word_iff {n : ℕ} {a b : BitVec n} : (a == b) = true ↔ (b.toNat : ℤ) = a.toNat := by
  rw [beq_iff_eq, Int.natCast_inj, BitVec.toNat_inj]
  exact eq_comm

/-- A handler takes its short cut exactly when the get handler returns the value already. -/
theorem Setting.cached_iff {ctl : Ctl} {x : ElemValue} {s : Setting} (h : ctl.setting x = some s)
    {c : Chip} (hc : ∀ strip, (c.eq strip).SlopeOk) :
    s.cached c = true ↔ bfGet c ctl = s.reading := by
  -- A pair of words is cached when both of them are.
  have hpair : ∀ {l r l' r' : U16}, (l == l' && r == r') = true ↔
      [(l'.toNat : ℤ), (r'.toNat : ℤ)] = [(l.toNat : ℤ), (r.toNat : ℤ)] := by
    intro l r l' r'
    rw [Bool.and_eq_true, word_iff, word_iff, List.cons_eq_cons, List.cons_eq_cons,
      and_iff_left rfl]
  have hmute : ∀ a b : Bool, (a == b) = true ↔
      [ofBool (!b), ofBool (!b)] = [ofBool (!a), ofBool (!a)] := by decide
  cases ctl <;> simp only [Ctl.setting, Option.ite_none_right_eq_some, Option.some.injEq,
    reduceCtorEq] at h
  case master out => obtain ⟨-, rfl⟩ := h; exact hpair
  case mute out => subst h; exact hmute _ _
  case xpoint out src => obtain ⟨-, rfl⟩ := h; exact hpair
  case phase mic => subst h; exact switch_iff
  case split pb => subst h; exact switch_iff
  case trim mic => obtain ⟨-, rfl⟩ := h; exact level_iff
  case phantom mic => subst h; exact switch_iff
  case pad mic => subst h; exact switch_iff
  case refLevel =>
    obtain ⟨-, rfl⟩ := h
    show (_ == _) = true ↔ [((_ : ℕ) : ℤ)] = [((_ : ℕ) : ℤ)]
    rw [beq_iff_eq, List.cons_eq_cons, and_iff_left rfl, Int.natCast_inj]
    exact eq_comm
  case gain mic => obtain ⟨-, rfl⟩ := h; exact level_iff
  case pitch => obtain ⟨-, rfl⟩ := h; exact level_iff
  case loopback out => subst h; exact switch₂_iff
  case an12 => subst h; exact switch_iff
  case clock => obtain ⟨-, rfl⟩ := h; exact switch_iff
  case optical => obtain ⟨-, rfl⟩ := h; exact switch_iff
  case link => subst h; exact switch_iff
  case ms => subst h; exact switch_iff
  case dim => subst h; exact switch_iff
  case width => obtain ⟨-, rfl⟩ := h; exact level_iff
  case fxSend =>
    obtain ⟨-, rfl⟩ := h
    show (_ == _) = true ↔ [_] = [_]
    rw [word_iff, List.cons_eq_cons, and_iff_left rfl]
  case eq strip p =>
    obtain ⟨-, rfl⟩ := h
    have hp : p = .lcSlope → ((c.eq strip).param p = 6 ∨ (c.eq strip).param p = 12 ∨
        (c.eq strip).param p = 18 ∨ (c.eq strip).param p = 24) := fun hp => by
      subst hp
      exact hc strip
    show ((c.eq strip).param p == _) = true ↔ [p.shown _] = [p.shown _]
    rw [beq_iff_eq, List.cons_eq_cons, and_iff_left rfl, shown_inj hp]
    intro hp
    subst hp
    exact EqParam.stored_slope _

end BabyfacePro
