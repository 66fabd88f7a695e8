import BabyfacePro.Control
import BabyfacePro.Panel.Select

/-!
# Runs of a card

What works on the mixer cache after a probe: puts of the controls, polls of the panel, changes of the
sample rate, session starts, and a suspend followed by the replay. Each may fail at any transfer.
`Reachable` are the states that these lead to, in any order; `Chip.Sound` is what holds of the cache
in all of them.
-/

namespace BabyfacePro

open Bus.M (get modify when)

/-! ## The steps -/

/-- The part of `babyface_pcm_hw_params` that changes the rate. -/
def bfRetune (r : BfRate) : Usb Unit := do
  usbSetInterface r.alt
  modify fun c => { c with rate := r.rate, alt := r.alt, frame_bytes := r.frame_bytes }
  bfEqReupload

/-- The vendor writes of `babyface_stream_start` before the URBs. -/
def bfSessionTrigger : Usb Unit := do
  bfClockWrite
  bfVendorWrite BF_REQ_KEEPALIVE 0x0000 0x8000
  bfVendorWrite BF_REQ_SESSION_START 0x0000 0x0000

/-- The vendor write of `babyface_stream_start` after the URBs. -/
def bfSessionArm : Usb Unit := bfVendorWrite BF_REQ_SESSION_ARM 0x0000 0xc000

/-- `babyface_resume`, at the time `jiffies`. -/
def babyfaceResume (jiffies : ℤ) : Usb Unit := do
  bfResumeLocked
  modify (babyfacePanelStart jiffies)

/-- The rate of a stream is one of the device's. -/
def Stream.Rated (s : Stream) : Prop := ∃ r ∈ bfRates, r.rate = s.rate

/-- A step of a card that works on the mixer cache or the device's registers. -/
inductive CardStep : World → World → Prop
  | put (k : Clock) (x : ElemValue) (ctl : Ctl) (w : World) : CardStep w (bfPut k x ctl w).2
  | poll (p : Poll) (t : ℤ) (w : World) : CardStep w (babyfacePanelWork p t w).2
  | retune {r : BfRate} (h : r ∈ bfRates) (w : World) : CardStep w (bfRetune r w).2
  | trigger (w : World) : CardStep w (bfSessionTrigger w).2
  | arm (w : World) : CardStep w (bfSessionArm w).2
  /-- What the PCM callbacks change: the rate is one of the device's. -/
  | stream {s : Stream} (h : s.Rated) (w : World) : CardStep w { w with chip := { w.chip with toStream := s } }
  /-- The device loses its registers: the log starts again. -/
  | suspend (w : World) : CardStep w { w with wire := [] }
  | resume (jiffies : ℤ) (w : World) : CardStep w (babyfaceResume jiffies w).2
  /-- Whether transfers get through is not settled by those before. -/
  | outcomes (usb : ℕ → Bool) (w : World) : CardStep w { w with usb := usb }

/-- A step other than a poll of the panel. -/
inductive OffPoll : World → World → Prop
  | put (k : Clock) (x : ElemValue) (ctl : Ctl) (w : World) : OffPoll w (bfPut k x ctl w).2
  | retune {r : BfRate} (h : r ∈ bfRates) (w : World) : OffPoll w (bfRetune r w).2
  | trigger (w : World) : OffPoll w (bfSessionTrigger w).2
  | arm (w : World) : OffPoll w (bfSessionArm w).2
  | stream {s : Stream} (h : s.Rated) (w : World) : OffPoll w { w with chip := { w.chip with toStream := s } }
  | suspend (w : World) : OffPoll w { w with wire := [] }
  | resume (jiffies : ℤ) (w : World) : OffPoll w (babyfaceResume jiffies w).2
  | outcomes (usb : ℕ → Bool) (w : World) : OffPoll w { w with usb := usb }

/-- A step besides the panel's poll is a step of the card. -/
theorem OffPoll.step {w w' : World} (h : OffPoll w w') : CardStep w w' := by
  cases h with
  | put k x ctl => exact .put k x ctl w
  | retune h => exact .retune h w
  | trigger => exact .trigger w
  | arm => exact .arm w
  | stream h => exact .stream h w
  | suspend => exact .suspend w
  | resume jiffies => exact .resume jiffies w
  | outcomes usb => exact .outcomes usb w

/-- A step is a poll, or one of the others. -/
theorem CardStep.poll_or {w w' : World} (h : CardStep w w') :
    (∃ p t, w' = (babyfacePanelWork p t w).2) ∨ OffPoll w w' := by
  cases h with
  | put k x ctl => exact .inr (.put k x ctl w)
  | poll p t => exact .inl ⟨p, t, rfl⟩
  | retune h => exact .inr (.retune h w)
  | trigger => exact .inr (.trigger w)
  | arm => exact .inr (.arm w)
  | stream h => exact .inr (.stream h w)
  | suspend => exact .inr (.suspend w)
  | resume jiffies => exact .inr (.resume jiffies w)
  | outcomes usb => exact .inr (.outcomes usb w)

/-- The states of a card after a probe. -/
def Reachable (w : World) : Prop :=
  ∃ st0 reprobe jiffies p w₀, Probed st0 reprobe jiffies p w₀ ∧ Relation.ReflTransGen CardStep w₀ w

/-- What a run leads to from a reachable state is reachable. -/
theorem Reachable.run {w w' : World} (h : Reachable w) (hr : Relation.ReflTransGen CardStep w w') :
    Reachable w' := by
  obtain ⟨_, _, _, _, _, hp, h₀⟩ := h
  exact ⟨_, _, _, _, _, hp, h₀.trans hr⟩

/-- So is what one step leads to. -/
theorem Reachable.step {w w' : World} (h : Reachable w) (hs : CardStep w w') : Reachable w' :=
  h.run (.single hs)

/-- The card of a fresh probe, before transfers with the outcomes `usb`. -/
def freshCardWith (usb : ℕ → Bool) : World := { freshCard with usb := usb }

/-- A new card is reachable, whatever its transfers will do. -/
theorem freshCardWith_reachable (usb : ℕ → Bool) : Reachable (freshCardWith usb) :=
  ⟨0, false, 0, {}, freshCard, freshCard_probed, .single (.outcomes usb freshCard)⟩

/-- A clock at its start. -/
def clock0 : Clock := ⟨64, 250, 0⟩

/-! ## What holds of the cache -/

/-- What holds of the mixer cache and the EQ strips at all times. -/
structure Chip.Sound (c : Chip) : Prop where
  /-- While DIM is engaged, the restore point is the cached Phones master. -/
  dim : c.DimSaved
  /-- The slopes are in decibels per octave. -/
  slope : ∀ strip, (c.eq strip).SlopeOk

/-- The mixer cache and the EQ strips decide. -/
theorem Chip.Sound.congr {c d : Chip} (h : c.Sound) (hm : d.toMixer = c.toMixer)
    (he : ∀ strip, (d.eq strip).slope_db = (c.eq strip).slope_db) : d.Sound where
  dim := by
    unfold Chip.DimSaved
    rw [hm]
    exact h.dim
  slope strip := by
    unfold EqChannel.SlopeOk
    rw [he]
    exact h.slope strip

/-- The place in the flag cycle does not matter. -/
theorem Chip.Sound.of_quiet {c d : Chip} (h : c.Sound) (hq : d.quiet = c.quiet) : d.Sound := by
  rw [Chip.quiet_eq hq]
  exact h.congr rfl fun _ => rfl

/-! ## What a replay keeps -/

section Frames

variable {R : Chip → Chip → Prop} {T : Reg × Datum → Prop} {X : Errno → Prop}

/-- A routine of the driver that keeps `R`. -/
abbrev Keeps (R : Chip → Chip → Prop) {α : Type} (m : Usb α) : Prop :=
  Bus.Frames Xfer.write R (fun _ => True) (fun _ => True) m

/-- What sees the states but for the flag cycle, writes keep. -/
theorem Writes.keeps {m : Usb Unit} {ws : Chip → List (Reg × Datum)} (h : Writes m ws)
    (hR : Bus.Framing R) (hq : Bus.Respects Chip.quiet R) : Keeps R m :=
  h.frames hR hq (fun _ _ _ => trivial) trivial

/-- What is written for the cached rate. -/
theorem withRate_keeps {f : BfRate → Usb Unit} (hR : Bus.Framing R) (h : ∀ r, Keeps R (f r)) :
    Keeps R (withRate f) := by
  unfold withRate
  refine hR.bind hR.get fun c => ?_
  split
  · exact hR.throw trivial
  · exact h _

/-- The clock's write changes nothing of the cache. -/
theorem bfClockWrite_keeps (hR : Bus.Framing R) (hq : Bus.Respects Chip.quiet R) :
    Keeps R bfClockWrite :=
  withRate_keeps hR fun _ =>
    ((bfVendorWrite_writes _ _ (by decide)).seq bfSettingsWrite_writes).keeps hR hq

/-- Nor does the cold init. -/
theorem bfColdInit_keeps (hR : Bus.Framing R) (hq : Bus.Respects Chip.quiet R) :
    Keeps R bfColdInit :=
  hR.bind (clear_writes.keeps hR hq) fun _ => hR.bind hR.get fun _ =>
    hR.bind ((bfPitchWrite_writes _).keeps hR hq) fun _ =>
      hR.bind ((bfVendorWrite_writes _ _ (by decide)).keeps hR hq) fun _ =>
        withRate_keeps hR fun r => (writeInit_writes r).keeps hR hq

/-- The upload of the EQ writes EQ blocks, and its failures are ignored. -/
theorem bfEqReupload_frames (hR : Bus.Framing R) (hq : Bus.Respects Chip.quiet R)
    (he : ∀ strip c, R c (recomputeStrip strip c)) (hT : ∀ ch b, T (.eq ch, .block b)) :
    Bus.Frames Xfer.write R T X bfEqReupload := by
  have hstrip : ∀ strip, Bus.Frames Xfer.write R T (fun _ => True) (bfEqUpdateStrip strip) :=
    fun strip => hR.bind (hR.modify (he strip)) fun _ =>
      (bfEqWriteStrip_writes strip).frames hR hq (fun c x hx => by
        obtain ⟨ch, -, rfl⟩ := List.mem_map.mp hx
        exact hT _ _) trivial
  exact hR.each _ fun strip _ => hR.bind (hR.attempt (hstrip strip)) fun _ => hR.pure _

/-- The replay of the flags sets DIM for a while, and puts back what was cached. -/
theorem bfStateApplyFlags_keeps (hR : Bus.Framing R) (hq : Bus.Respects Chip.quiet R)
    (hd : ∀ c, R c (setDim true c)) (hu : ∀ c : Chip, R c { setDim true c with dim := c.dim }) :
    Keeps R bfStateApplyFlags := by
  have hdim : Keeps R (bfDimApply true) :=
    Bus.Sends.settle_frames (writeDim_writes true) Chip.quiet_quiet (fun _ => rfl) (fun _ _ => rfl)
      hq hd hu (fun _ _ _ => trivial) trivial
  refine hR.bind hR.get fun c => hR.bind ((bfLoopbackWriteMap_writes _ _).keeps hR hq) fun _ => ?_
  refine hR.bind ((writeLink_writes _ _).keeps hR hq) fun _ => ?_
  refine hR.bind (hR.when _ fun _ => (bfWidthApply_writes _).keeps hR hq) fun _ => ?_
  refine hR.bind ((writeFx_writes _).keeps hR hq) fun _ => ?_
  refine hR.bind (hR.when _ fun _ => writeMs_writes.keeps hR hq) fun _ => ?_
  refine hR.bind (hR.when _ fun _ => hdim) fun _ => ?_
  refine hR.bind (hR.each _ fun mic _ => hR.when _ fun _ =>
    (bfPhaseApply_writes mic true).keeps hR hq) fun _ => ?_
  refine hR.bind (hR.each _ fun pb _ => hR.when _ fun _ =>
    (bfSplitApply_writes pb true).keeps hR hq) fun _ => ?_
  exact hR.each _ fun mic _ => hR.when _ fun _ => (bfTrimApply_writes mic _).keeps hR hq

/-- The replay changes nothing of the cache. -/
theorem babyfaceRestoreState_keeps (hR : Bus.Framing R) (hq : Bus.Respects Chip.quiet R) :
    Keeps R babyfaceRestoreState := by
  refine hR.bind (bfPreampStateWrite_writes.keeps hR hq) fun _ => ?_
  refine hR.bind (hR.each _ fun mic _ => hR.bind hR.get fun _ =>
    (bfVendorWrite_writes _ _ (by decide)).keeps hR hq) fun _ => ?_
  refine hR.bind (bfApplyMasters_writes.keeps hR hq) fun _ => ?_
  refine hR.bind (hR.each _ fun out _ => hR.bind hR.get fun _ =>
    (writeBlock_writes out _).keeps hR hq) fun _ => ?_
  exact hR.bind (bfClockWrite_keeps hR hq) fun _ => hR.bind hR.get fun _ =>
    (bfPitchWrite_writes _).keeps hR hq

/-- A resume changes the cache by DIM's detour only. -/
theorem babyfaceResume_keeps (hR : Bus.Framing R) (hq : Bus.Respects Chip.quiet R)
    (hd : ∀ c, R c (setDim true c)) (hu : ∀ c : Chip, R c { setDim true c with dim := c.dim })
    (he : ∀ strip c, R c (recomputeStrip strip c)) {jiffies : ℤ}
    (hs : ∀ c, R c (babyfacePanelStart jiffies c)) : Keeps R (babyfaceResume jiffies) := by
  have hi : ∀ alt, Keeps R (usbSetInterface alt) := fun alt => hR.send trivial trivial
  have hl : Keeps R bfResumeLocked :=
    hR.bind hR.get fun c => hR.bind (hi _) fun _ => hR.bind (bfColdInit_keeps hR hq) fun _ =>
      hR.bind (babyfaceRestoreState_keeps hR hq) fun _ =>
        hR.bind (bfStateApplyFlags_keeps hR hq hd hu) fun _ => bfEqReupload_frames hR hq he fun _ _ => trivial
  exact hR.bind hl fun _ => hR.modify hs

end Frames

/-! ## What every step keeps -/

/-- A master in the cache keeps the invariant. -/
theorem cacheMaster_sound (out : Out) (l r : U16) {c : Chip} (h : c.Sound) :
    (cacheMaster out l r c).Sound where
  dim hd := by
    have hc : c.dim = true := hd
    show (if (c.dim && out = 1) = true then ![l, r] else c.dim_saved) =
      Function.update c.master out ![l, r] 1
    by_cases ho : out = 1
    · subst ho
      rw [hc, Function.update_self]
      rfl
    · rw [Function.update_of_ne (Ne.symm ho), if_neg (by simp [ho])]
      exact h.dim hc
  slope := h.slope

/-- DIM's change of the cache, whether its writes get through or not. -/
theorem setDim_sound (on b : Bool) {c : Chip} (h : c.Sound) (hb : b = true → on = true ∨ c.dim = true) :
    ({ setDim on c with dim := b } : Chip).Sound where
  dim hd := by
    show (if on then c.master 1 else c.dim_saved) = c.master 1
    cases on with
    | true => rfl
    | false => exact h.dim ((hb hd).resolve_left (by decide))
  slope := h.slope

/-- The words of a strip are computed, its slope is not. -/
theorem recomputeStrip_slope (strip strip' : Mic) (c : Chip) :
    ((recomputeStrip strip c).eq strip').slope_db = (c.eq strip').slope_db := by
  unfold recomputeStrip
  by_cases hs : strip' = strip
  · subst hs
    simp only [Function.update_self]
    rfl
  · simp only [Function.update_of_ne hs]

/-- A parameter of the EQ keeps the invariant if a slope is one of the four. -/
theorem cacheEq_sound {strip : Mic} {p : EqParam} {v : ℤ} {c : Chip} (h : c.Sound)
    (hv : p = .lcSlope → v = 6 ∨ v = 12 ∨ v = 18 ∨ v = 24) : (cacheEq strip p v c).Sound where
  dim := h.dim
  slope strip' := by
    unfold EqChannel.SlopeOk cacheEq
    rw [recomputeStrip_slope]
    by_cases hs : strip' = strip
    · subst hs
      simp only [Function.update_self]
      cases p with
      | lcSlope => exact hv rfl
      | _ => exact h.slope strip'
    · simp only [Function.update_of_ne hs]
      exact h.slope strip'

/-- The states that an accepted put leaves. -/
theorem Setting.sound {ctl : Ctl} {x : ElemValue} {s : Setting} (hs : ctl.setting x = some s)
    {c : Chip} (h : c.Sound) : (s.cache c).Sound ∧ (s.failed c).Sound := by
  cases s with
  | master out l r => exact ⟨cacheMaster_sound out l r h, h⟩
  | dim on => exact ⟨setDim_sound on on h .inl, setDim_sound on c.dim h .inr⟩
  | eq strip p v =>
    have he : (cacheEq strip p v c).Sound := cacheEq_sound h fun hp => by
      subst hp
      exact Ctl.setting_slope hs
    exact ⟨he, he⟩
  | _ => exact ⟨⟨h.dim, h.slope⟩, ⟨h.dim, h.slope⟩⟩

/-- A put of a selection keeps what its changes of the panel's state keep. -/
theorem bfPanelSelectPut_keeps {R : Chip → Chip → Prop} {T : Reg × Datum → Prop} (hR : Bus.Framing R)
    (harm : ∀ c : Chip, R c { c with panel_select_armed := true })
    (hsel : ∀ pair v c, R c (cacheSel pair v c))
    (hload : ∀ c, R c (bfPanelSelLoad c)) (hseed : ∀ c, R c (bfPanelMixSeed c)) (k : Clock) (pair : Fin 3)
    (v : ℕ) : Bus.Frames Xfer.write R T (fun _ => True) (bfPanelSelectPut k pair v) := by
  unfold bfPanelSelectPut
  refine hR.bind hR.get fun c => hR.ite _ (fun _ => hR.throw trivial) fun _ =>
    hR.ite _ (fun _ => hR.pure _) fun _ => ?_
  refine hR.bind (hR.when _ fun _ => hR.modify harm) fun _ => hR.ite _ (fun _ => hR.pure _) fun _ => ?_
  refine hR.bind (hR.modify fun c => hsel _ _ c) fun _ => hR.bind (hR.when _ fun _ => ?_) fun _ => hR.pure _
  exact hR.bind (hR.modify hload) fun _ => hR.when _ fun _ => hR.modify hseed

/-- The panel's selection is no part of the mixer cache. -/
theorem bfPanelSelectPut_frames {R : Chip → Chip → Prop} {T : Reg × Datum → Prop} (hR : Bus.Framing R)
    (hpanel : ∀ c d : Chip, d.toMixer = c.toMixer → d.eq = c.eq → R c d) (k : Clock) (pair : Fin 3)
    (v : ℕ) : Bus.Frames Xfer.write R T (fun _ => True) (bfPanelSelectPut k pair v) :=
  bfPanelSelectPut_keeps hR (fun c => hpanel c _ rfl rfl) (fun _ _ c => hpanel c _ rfl rfl)
    (fun c => hpanel c _ rfl rfl) (fun c => hpanel c _ rfl rfl) k pair v

/-- A put, accepted or refused. -/
theorem bfPut_cases (k : Clock) (x : ElemValue) (ctl : Ctl) :
    (∃ s, ctl.setting x = some s ∧
        Handles (bfPut k x ctl) s.cached s.writes s.cache s.failed s.notes) ∨
      (∃ pair, ctl = .panelSelect pair) ∨
      (ctl.setting x = none ∧
        ∀ w, ∃ e, (e = .einval ∨ e = .eperm) ∧ bfPut k x ctl w = (.error e, w)) := by
  cases hs : ctl.setting x with
  | some s => exact .inl ⟨s, rfl, bfPut_handles k hs⟩
  | none =>
    by_cases hp : ∃ pair, ctl = .panelSelect pair
    · exact .inr (.inl hp)
    · refine .inr (.inr ⟨rfl, fun w => ?_⟩)
      obtain ⟨e, he, hrun⟩ := bfPut_refused k hs (fun pair he => hp ⟨pair, he⟩) w
      exact ⟨e, he.imp_right And.left, hrun⟩

/-- The place in the flag cycle does not matter. -/
theorem respects_sound : Bus.Respects Chip.quiet fun c d => c.Sound → d.Sound :=
  fun _ _ _ _ hc hd h hs => (h (hs.of_quiet hc.symm)).of_quiet hd

/-- A put keeps the invariant. -/
theorem bfPut_sound (k : Clock) (x : ElemValue) (ctl : Ctl) {w : World} (h : w.chip.Sound) :
    (bfPut k x ctl w).2.chip.Sound := by
  have hF : Bus.Framing fun c d : Chip => c.Sound → d.Sound := Bus.Framing.keeps _
  obtain ⟨s, hs, hh⟩ | ⟨pair, rfl⟩ | ⟨-, hr⟩ := bfPut_cases k x ctl
  · have hk : Keeps (fun c d : Chip => c.Sound → d.Sound) (bfPut k x ctl) :=
      hh.frames Chip.quiet_quiet hF respects_sound (fun c hc => (Setting.sound hs hc).1)
        (fun c hc => (Setting.sound hs hc).2) (fun _ _ _ => trivial) trivial
    exact hk.state w h
  · have hk : Keeps (fun c d : Chip => c.Sound → d.Sound) (bfPanelSelectPut k pair x.item) :=
      bfPanelSelectPut_frames hF (fun c d hm he hc => hc.congr hm fun strip => by rw [he]) k pair _
    exact hk.state w h
  · obtain ⟨e, -, hp⟩ := hr w
    rw [hp]
    exact h

/-- A put, accepted or refused, keeps what its changes of the cache keep. -/
theorem bfPut_keeps {R : Chip → Chip → Prop} (hR : Bus.Framing R) (hq : Bus.Respects Chip.quiet R)
    (hs : ∀ (s : Setting) c, R c (s.cache c) ∧ R c (s.failed c))
    (hsel : ∀ k pair v, Keeps R (bfPanelSelectPut k pair v)) (k : Clock) (x : ElemValue) (ctl : Ctl) :
    Keeps R (bfPut k x ctl) := by
  obtain ⟨s, -, hh⟩ | ⟨pair, rfl⟩ | ⟨-, hr⟩ := bfPut_cases k x ctl
  · exact hh.frames Chip.quiet_quiet hR hq (fun c => (hs s c).1) (fun c => (hs s c).2)
      (fun _ _ _ => trivial) trivial
  · exact hsel k pair x.item
  · refine hR.silent 0 (fun w => ?_) (fun w => ?_) (fun w => ?_) fun _ _ _ => trivial
    all_goals obtain ⟨e, -, hp⟩ := hr w; rw [hp]
    · exact hR.refl _
    · rw [Bus.shift_zero]

/-- A property of the cache that puts, the stream's changes and a replay keep holds after every step
other than a poll. -/
theorem OffPoll.keeps {P : Chip → Prop} (hq : Bus.Respects Chip.quiet fun c d => P c → P d)
    {w w' : World} (hput : ∀ k x ctl, w' = (bfPut k x ctl w).2 → P w.chip → P w'.chip)
    (hstream : ∀ (c : Chip) (s : Stream), s.Rated → P c → P { c with toStream := s })
    (hdim : ∀ c, P c → P (setDim true c)) (hundo : ∀ c : Chip, P c → P { setDim true c with dim := c.dim })
    (heq : ∀ strip c, P c → P (recomputeStrip strip c))
    (hstart : ∀ jiffies c, P c → P (babyfacePanelStart jiffies c)) (hs : OffPoll w w') (h : P w.chip) :
    P w'.chip := by
  have hF : Bus.Framing fun c d : Chip => P c → P d := Bus.Framing.keeps _
  -- One case for each step, by the frame of its routine.
  cases hs with
  | put k x ctl => exact hput k x ctl rfl h
  | @retune r hr =>
    have hk : Keeps (fun c d : Chip => P c → P d) (bfRetune r) :=
      hF.bind (hF.send trivial trivial) fun _ => hF.bind (hF.modify fun c hc => hstream c _ ⟨r, hr, rfl⟩ hc)
        fun _ => bfEqReupload_frames hF hq heq fun _ _ => trivial
    exact hk.state w h
  | trigger =>
    have hk : Keeps (fun c d : Chip => P c → P d) bfSessionTrigger :=
      hF.bind (bfClockWrite_keeps hF hq) fun _ => hF.bind (hF.send trivial trivial) fun _ =>
        hF.send trivial trivial
    exact hk.state w h
  | arm =>
    have hk : Keeps (fun c d : Chip => P c → P d) bfSessionArm := hF.send trivial trivial
    exact hk.state w h
  | stream hs => exact hstream w.chip _ hs h
  | suspend => exact h
  | outcomes => exact h
  | resume jiffies =>
    have hk : Keeps (fun c d : Chip => P c → P d) (babyfaceResume jiffies) :=
      babyfaceResume_keeps hF hq hdim hundo heq fun c hc => hstart jiffies c hc
    exact hk.state w h

/-- A part of the state that puts, the stream's changes and a replay leave alone. -/
theorem OffPoll.view {β : Type} {v : Chip → β} (hq : ∀ c, v c.quiet = v c)
    (hput : ∀ (s : Setting) c, v (s.cache c) = v c ∧ v (s.failed c) = v c)
    (hsel : ∀ k pair n, Keeps (fun c d => v d = v c) (bfPanelSelectPut k pair n))
    (hstream : ∀ (c : Chip) s, v { c with toStream := s } = v c)
    (hdim : ∀ c, v (setDim true c) = v c) (hundo : ∀ c : Chip, v { setDim true c with dim := c.dim } = v c)
    (heq : ∀ strip c, v (recomputeStrip strip c) = v c)
    (hstart : ∀ jiffies c, v (babyfacePanelStart jiffies c) = v c) {w w' : World} (hs : OffPoll w w') :
    v w'.chip = v w.chip := by
  -- A view that ignores the flags' counter is the same in quiet states.
  have hquiet : ∀ {c d : Chip}, d.quiet = c.quiet → v d = v c := fun {c d} h => by
    rw [← hq d, h, hq c]
  have hresp : Bus.Respects Chip.quiet fun c d => v d = v c := fun c c' d d' hc hd h =>
    (hquiet hd).trans (h.trans (hquiet hc).symm)
  refine hs.keeps (P := fun c => v c = v w.chip) (fun c c' d d' hc hd h hv => ?_)
    (fun k x ctl he h₁ => ?_) (fun c s _ h => (hstream c s).trans h) (fun c h => (hdim c).trans h)
    (fun c h => (hundo c).trans h) (fun strip c h => (heq strip c).trans h)
    (fun jiffies c h => (hstart jiffies c).trans h) rfl
  · exact (hquiet hd).trans (h ((hquiet hc).symm.trans hv))
  · rw [he]
    exact ((bfPut_keeps (Bus.Framing.view v) hresp hput hsel k x ctl).state w).trans h₁

/-- A property of the cache that puts, polls, the stream's changes and a replay keep holds after every
step. -/
theorem CardStep.keeps {P : Chip → Prop} (hq : Bus.Respects Chip.quiet fun c d => P c → P d)
    (hput : ∀ k x ctl w, P w.chip → P (bfPut k x ctl w).2.chip)
    (hpoll : ∀ p t w, P w.chip → P (babyfacePanelWork p t w).2.chip)
    (hstream : ∀ (c : Chip) (s : Stream), s.Rated → P c → P { c with toStream := s })
    (hdim : ∀ c, P c → P (setDim true c)) (hundo : ∀ c : Chip, P c → P { setDim true c with dim := c.dim })
    (heq : ∀ strip c, P c → P (recomputeStrip strip c))
    (hstart : ∀ jiffies c, P c → P (babyfacePanelStart jiffies c)) {w w' : World} (hs : CardStep w w')
    (h : P w.chip) : P w'.chip := by
  obtain ⟨p, t, rfl⟩ | ho := hs.poll_or
  · exact hpoll p t w h
  · exact ho.keeps hq (fun k x ctl he hc => he ▸ hput k x ctl w hc) hstream hdim hundo heq hstart h

/-- Every step keeps the cache sound. -/
theorem CardStep.sound {w w' : World} (hs : CardStep w w') (h : w.chip.Sound) : w'.chip.Sound := by
  have hF : Bus.Framing fun c d : Chip => c.Sound → d.Sound := Bus.Framing.keeps _
  have hpoll : ∀ p t (w : World), w.chip.Sound → (babyfacePanelWork p t w).2.chip.Sound :=
    fun p t w hw => (babyfacePanelWork_frames hF
      (fun c d _ hm he hc => hc.congr hm fun strip => by rw [he])
      (fun out l r c hc => cacheMaster_sound out l r hc) (fun _ _ _ _ _ hc => ⟨hc.dim, hc.slope⟩)
      (fun _ _ hc => ⟨hc.dim, hc.slope⟩) (fun _ _ hc => ⟨hc.dim, hc.slope⟩) p t).state w hw
  exact hs.keeps respects_sound (fun k x ctl _ hw => bfPut_sound k x ctl hw) hpoll
    (fun _ _ _ hc => ⟨hc.dim, hc.slope⟩) (fun c hc => setDim_sound true true hc fun _ => .inl rfl)
    (fun c hc => setDim_sound true c.dim hc .inr)
    (fun strip c hc => hc.congr rfl fun strip' => recomputeStrip_slope strip strip' c)
    (fun _ _ hc => ⟨hc.dim, hc.slope⟩) h

/-! ## The selection at all times -/

/-- The place in the flag cycle is no field of the selection. -/
theorem Chip.sel_of_quiet {c d : Chip} (h : d.quiet = c.quiet) : d.sel = c.sel := by
  have hsel : d.quiet.sel = c.quiet.sel := congrArg Chip.sel h
  exact hsel

/-- A put of another control leaves the selection alone. -/
theorem bfPut_tracked (k : Clock) (x : ElemValue) (ctl : Ctl) {w : World} (h : w.chip.SelTracked) :
    (bfPut k x ctl w).2.chip.SelTracked := by
  have hcache : ∀ (s : Setting) (c : Chip), (s.cache c).sel = c.sel ∧ (s.failed c).sel = c.sel :=
    fun s c => by cases s <;> exact ⟨rfl, rfl⟩
  obtain ⟨s, hs, hh⟩ | ⟨pair, rfl⟩ | ⟨-, hr⟩ := bfPut_cases k x ctl
  · have hk : Keeps (fun c d : Chip => d.sel = c.sel) (bfPut k x ctl) :=
      hh.frames Chip.quiet_quiet (Bus.Framing.view Chip.sel)
        (fun c c' d d' hc hd hcd => by rw [Chip.sel_of_quiet hd, hcd, Chip.sel_of_quiet hc])
        (fun c => (hcache s c).1) (fun c => (hcache s c).2) (fun _ _ _ => trivial) trivial
    exact h.congr (hk.state w)
  · exact bfPanelSelectPut_tracked k pair _ h
  · obtain ⟨e, -, hp⟩ := hr w
    rw [hp]
    exact h

/-- Every step keeps the fields of the selection together. -/
theorem CardStep.tracked {w w' : World} (hs : CardStep w w') (h : w.chip.SelTracked) :
    w'.chip.SelTracked := by
  have hq : Bus.Respects Chip.quiet fun c d => c.SelTracked → d.SelTracked :=
    fun c c' d d' hc hd hcd hc' =>
      (hcd (hc'.congr (Chip.sel_of_quiet hc).symm)).congr (Chip.sel_of_quiet hd)
  have hpoll : ∀ p t (w : World), w.chip.SelTracked → (babyfacePanelWork p t w).2.chip.SelTracked :=
    fun p t w hw => by
      obtain ⟨w₁, _, hrun, htracked, -⟩ := babyfacePanelWork_safe p t hw
      rwa [hrun]
  exact hs.keeps hq (fun k x ctl _ hw => bfPut_tracked k x ctl hw) hpoll (fun _ _ _ hc => hc.congr rfl)
    (fun _ hc => hc.congr rfl) (fun _ hc => hc.congr rfl) (fun _ _ hc => hc.congr rfl)
    (fun jiffies _ hc => babyfacePanelStart_tracked jiffies hc.range) h

/-- A put leaves the rate alone. -/
theorem bfPut_rate (k : Clock) (x : ElemValue) (ctl : Ctl) :
    Keeps (fun c d : Chip => d.rate = c.rate) (bfPut k x ctl) := by
  have hR : Bus.Framing fun c d : Chip => d.rate = c.rate := Bus.Framing.view fun c : Chip => c.rate
  have hquiet : ∀ {c d : Chip}, d.quiet = c.quiet → d.rate = c.rate := fun {_ _} h => by rw [Chip.quiet_eq h]
  refine bfPut_keeps hR (fun _ _ _ _ hc hd h => (hquiet hd).trans (h.trans (hquiet hc).symm)) (fun s c => ?_)
    (fun k pair v => ?_) k x ctl
  · cases s <;> exact ⟨rfl, rfl⟩
  · exact bfPanelSelectPut_keeps hR (fun _ => rfl) (fun _ _ _ => rfl) (fun _ => rfl) (fun _ => rfl) k pair v

/-- Every step keeps the rate one of the device's. -/
theorem CardStep.rated {w w' : World} (hs : CardStep w w') (h : w.chip.Rated) : w'.chip.Rated := by
  have hsame : ∀ {c d : Chip}, d.rate = c.rate → c.Rated → d.Rated := fun {c d} he hc => by
    unfold Stream.Rated
    rwa [he]
  have hq : Bus.Respects Chip.quiet fun c d : Chip => c.Rated → d.Rated := fun c c' d d' hc hd hcd h =>
    hsame (by rw [Chip.quiet_eq hd]) (hcd (hsame (by rw [Chip.quiet_eq hc]) h))
  have hpoll : ∀ p t (w : World), w.chip.Rated → (babyfacePanelWork p t w).2.chip.Rated := fun p t w =>
    hsame ((babyfacePanelWork_frames (Bus.Framing.view fun c : Chip => c.rate)
      (fun _ _ hstream _ _ => congrArg Stream.rate hstream) (fun _ _ _ _ => rfl) (fun _ _ _ _ _ => rfl)
      (fun _ _ => rfl) (fun _ _ => rfl) p t).state w)
  exact hs.keeps hq (fun k x ctl w => hsame ((bfPut_rate k x ctl).state w)) hpoll (fun _ _ hr _ => hr)
    (fun _ => hsame rfl) (fun _ => hsame rfl) (fun _ _ => hsame rfl) (fun _ _ => hsame rfl) h

/-- A new card runs at 48 kHz. -/
theorem probedChip_rate (st : Option U8) (reprobe : Bool) (jiffies : ℤ) (p : Params) :
    (probedChip st reprobe jiffies p).rate = 48000 := by
  cases st <;> rfl

/-- A probe leaves a rate of the table. -/
theorem Probed.rated {st0 : U8} {reprobe : Bool} {jiffies : ℤ} {p : Params} {w : World}
    (h : Probed st0 reprobe jiffies p w) : w.chip.Rated := by
  obtain ⟨st, hq, -⟩ := babyfaceProbe_run h
  have hrate : w.chip.rate = 48000 :=
    calc w.chip.rate = w.chip.quiet.rate := rfl
      _ = 48000 := by rw [hq, probedChip_rate]
  unfold Stream.Rated
  rw [hrate]
  decide

/-- The default mixer leaves DIM and the slopes alone. -/
theorem cacheDefaultMixer_sound {c : Chip} (hd : c.dim = false) (hs : ∀ strip, (c.eq strip).SlopeOk) :
    (cacheDefaultMixer c).Sound := by
  have h : ∀ l : List Out,
      (l.foldl (fun c out => cacheDefaultMaster out c) c).dim = false ∧
        (l.foldl (fun c out => cacheDefaultMaster out c) c).eq = c.eq := fun l =>
    List.foldlRecOn (motive := fun d : Chip => d.dim = false ∧ d.eq = c.eq) l _ ⟨hd, rfl⟩
      fun _ hd _ _ => hd
  have hx : ∀ d : Chip, d.dim = false → d.eq = c.eq → (cacheDefaultXpoints d).Sound :=
    fun d hd he => ⟨fun hc => absurd (hd.symm.trans hc) (by decide), fun strip => by
      show (d.eq strip).SlopeOk
      rw [he]
      exact hs strip⟩
  exact hx _ (h _).1 (h _).2

/-- A probe leaves the invariant. -/
theorem Probed.sound {st0 : U8} {reprobe : Bool} {jiffies : ℤ} {p : Params} {w : World}
    (h : Probed st0 reprobe jiffies p w) : w.chip.Sound := by
  obtain ⟨st, hq, -⟩ := babyfaceProbe_run h
  have hm : (probedMixer st p).Sound :=
    cacheDefaultMixer_sound (by cases st <;> rfl) fun _ => .inl (by cases st <;> rfl)
  have hp : (probedChip st reprobe jiffies p).Sound := hm.congr rfl fun _ => rfl
  rw [← hq] at hp
  exact hp.of_quiet rfl

/-- The cache is sound at all times. -/
theorem Reachable.sound {w : World} (h : Reachable w) : w.chip.Sound := by
  obtain ⟨_, _, _, _, w₀, hp, hr⟩ := h
  induction hr with
  | refl => exact hp.sound
  | tail _ hs ih => exact hs.sound ih

/-- The fields of the selection belong together at all times. -/
theorem Reachable.tracked {w : World} (h : Reachable w) : w.chip.SelTracked := by
  obtain ⟨_, _, _, _, w₀, hp, hr⟩ := h
  induction hr with
  | refl => exact hp.tracked
  | tail _ hs ih => exact hs.tracked ih

/-- The rate is one of the device's at all times. -/
theorem Reachable.rated {w : World} (h : Reachable w) : w.chip.Rated := by
  obtain ⟨_, _, _, _, w₀, hp, hr⟩ := h
  induction hr with
  | refl => exact hp.rated
  | tail _ hs ih => exact hs.rated ih

end BabyfacePro
