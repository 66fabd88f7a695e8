import BabyfacePro.Panel.Tick

/-!
# Probe

The state that `babyface_probe` sets up, and the transfers that it makes. What it does with the
card, the PCM and the controls beyond their state is left to the cores that it calls.
-/

namespace BabyfacePro

open Bus.M (get modify attempt when)

/-- The module parameters. -/
structure Params where
  nurbs : ℤ := 8
  frames_per_urb : ℤ := 256
  urb_frames_min : ℤ := 32
  urb_split : ℤ := 0

/-- `clamp`. -/
def clamp (v lo hi : ℤ) : ℤ := max lo (min v hi)

/-- The largest URB, a multiple of 8. -/
def Params.framesPerUrb (p : Params) : ℕ := (clamp p.frames_per_urb 8 1024).toNat / 8 * 8

/-- The state of a card before its first transfer. -/
def probeChip (p : Params) : Chip :=
  { nurbs := (clamp p.nurbs 2 16).toNat
    frames_per_urb := p.framesPerUrb
    urb_frames_min := min ((clamp p.urb_frames_min 8 1024).toNat / 8 * 8) p.framesPerUrb
    urb_frames := p.framesPerUrb
    urbs_active := (clamp p.nurbs 2 16).toNat
    rate := 48000
    alt := BF_ALT_1
    frame_bytes := 56
    preamp := BF_PREAMP_BASE
    panel_sel := fun _ => -1 }

/-- The bits of the preamp byte that the driver keeps. -/
def preampMask : U16 :=
  BF_PREAMP_REF_MASK ||| BF_PREAMP_48V_MIC1 ||| BF_PREAMP_48V_MIC2 ||| BF_PREAMP_PAD_MIC1 |||
    BF_PREAMP_PAD_MIC2

/-- The preamp byte read back at probe, in the cache. -/
def cachePreamp (st0 : U8) (c : Chip) : Chip :=
  let preamp := st0.setWidth 16 &&& preampMask
  { c with
    preamp := preamp
    ref_level :=
      if preamp &&& BF_PREAMP_REF_MASK = BF_PREAMP_REF_4DBU then BF_REF_LEVEL_4DBU
      else BF_REF_LEVEL_MINUS10DBV }

/-- `bf_eq_defaults`. -/
def bfEqDefaults (c : Chip) : Chip :=
  { c with eq := fun strip => { c.eq strip with slope_db := 6, band_q := fun _ => 100 } }

/-- The end of `babyface_probe`, from the EQ defaults on. -/
def probeTail (reprobe : Bool) (jiffies : ℤ) : Usb Unit := do
  modify bfEqDefaults
  babyfaceWriteDefaultMixer
  bfStateApplyFlags
  modify fun c => { c with reprobe := reprobe }
  modify (babyfacePanelStart jiffies)

/-- `babyface_probe` of a unit whose preamp readback starts with the byte `st0`, and which was probed
before or not; the panel starts at the time `jiffies`. A failed readback is only logged. -/
def babyfaceProbe (st0 : U8) (reprobe : Bool) (jiffies : ℤ) : Usb Unit := do
  usbSetInterface BF_ALT_1
  bfColdInit
  let got ← attempt (Bus.M.recv .usb ())
  when got (modify (cachePreamp st0))
  probeTail reprobe jiffies

/-- The part of `babyface_probe` from the EQ defaults to `snd_card_register`. -/
def registerTail (reprobe : Bool) : Usb Unit := do
  modify bfEqDefaults
  babyfaceWriteDefaultMixer
  bfStateApplyFlags
  modify fun c => { c with reprobe := reprobe }

/-- `babyface_probe` up to `snd_card_register`, which shows the controls. -/
def probeRegister (st0 : U8) (reprobe : Bool) : Usb Unit := do
  usbSetInterface BF_ALT_1
  bfColdInit
  let got ← attempt (Bus.M.recv .usb ())
  when got (modify (cachePreamp st0))
  registerTail reprobe

/-- The panel starts once the card is registered. -/
theorem babyfaceProbe_eq (st0 : U8) (reprobe : Bool) (jiffies : ℤ) :
    babyfaceProbe st0 reprobe jiffies =
      (do probeRegister st0 reprobe; modify (babyfacePanelStart jiffies)) := by
  simp only [babyfaceProbe, probeTail, probeRegister, registerTail, bind_assoc]

/-- `babyface_probe` up to the preamp readback. -/
def probeHead : Usb Unit := do
  usbSetInterface BF_ALT_1
  bfColdInit

/-- What the readback of a probe returns, when the transfers have the outcomes `usb`. -/
def preampRead (st0 : U8) (p : Params) (usb : ℕ → Bool) : Option U8 :=
  if (probeHead ⟨probeChip p, [], [], usb⟩).2.usb 0 then some st0 else none

/-- The cache before the default mixer: `st` is the preamp byte read back, if that did not fail. -/
def readChip (st : Option U8) (p : Params) : Chip :=
  bfEqDefaults (st.elim (probeChip p) fun st0 => cachePreamp st0 (probeChip p))

/-- The cache after the default mixer and before the panel starts. -/
def probedMixer (st : Option U8) (p : Params) : Chip := cacheDefaultMixer (readChip st p)

/-- The masters of a new cache. -/
theorem cacheDefaultMixer_masters (c : Chip) (out : Out) :
    (cacheDefaultMixer c).master out = ![defaultStep out, defaultStep out] ∧
      (cacheDefaultMixer c).muted out = false :=
  match out with
  | 0 | 1 | 2 | 3 | 4 | 5 => ⟨rfl, rfl⟩

/-- The cache of a card as it is registered. -/
def registeredChip (st : Option U8) (reprobe : Bool) (p : Params) : Chip :=
  { probedMixer st p with reprobe := reprobe }

/-- The cache of a card that was probed. -/
def probedChip (st : Option U8) (reprobe : Bool) (jiffies : ℤ) (p : Params) : Chip :=
  babyfacePanelStart jiffies { probedMixer st p with reprobe := reprobe }

/-- The transfers of a probe. -/
def probeRegs (st : Option U8) (p : Params) : List (Reg × Datum) :=
  [(.iface, .alt BF_ALT_1)] ++ (coldRegs (probeChip p)
    ++ (defaultMixerRegs (readChip st p) ++ flagRegs (probedMixer st p)))

/-- The card after a probe that succeeded. -/
structure Probed (st0 : U8) (reprobe : Bool) (jiffies : ℤ) (p : Params) (w : World) : Prop where
  /-- From a new card. -/
  run : ∃ usb, babyfaceProbe st0 reprobe jiffies ⟨probeChip p, [], [], usb⟩ = (.ok (), w)

/-- A value was returned. -/
def isOk {ε α : Type} : Except ε α → Bool
  | .ok _ => true
  | .error _ => false

/-- A card that was probed with the default parameters and no failed transfer. -/
def freshCard : World := (babyfaceProbe 0 false 0 ⟨probeChip {}, [], [], fun _ => true⟩).2

/-- A run that succeeds has a value. -/
theorem eq_of_isOk {ε α β : Type} {x : Except ε β × α} (h : isOk x.1 = true) :
    ∃ b, x = (.ok b, x.2) := by
  obtain ⟨_ | b, _⟩ := x
  · cases h
  · exact ⟨b, rfl⟩

/-- A run that fails has an error. -/
theorem eq_of_not_isOk {ε α β : Type} {x : Except ε β × α} (h : isOk x.1 = false) :
    ∃ e, x = (.error e, x.2) := by
  obtain ⟨e | _, _⟩ := x
  · exact ⟨e, rfl⟩
  · cases h

/-- A new card has been probed. -/
theorem freshCard_probed : Probed 0 false 0 {} freshCard := by
  obtain ⟨_, hrun⟩ := eq_of_isOk (x := babyfaceProbe 0 false 0 ⟨probeChip {}, [], [], fun _ => true⟩)
    (by decide +kernel)
  exact ⟨fun _ => true, hrun⟩

/-- The rest of the probe caches the defaults, and writes them. -/
theorem registerTail_restores (reprobe : Bool) :
    Restores (fun c => c.dim = false) (registerTail reprobe)
      (fun c => { cacheDefaultMixer (bfEqDefaults c) with reprobe := reprobe })
      fun c => defaultMixerRegs (bfEqDefaults c)
        ++ (flagRegs (cacheDefaultMixer (bfEqDefaults c)) ++ []) := by
  have he : Restores (fun c => c.dim = false) (modify bfEqDefaults) bfEqDefaults fun _ => [] :=
    Bus.Acts.modify fun _ => rfl
  have hm : Restores (fun c => c.dim = false) babyfaceWriteDefaultMixer cacheDefaultMixer
      defaultMixerRegs := babyfaceWriteDefaultMixer_restores (fun _ _ h => h) fun _ h => h
  have hf : Restores (fun c => c.dim = false) bfStateApplyFlags id flagRegs :=
    bfStateApplyFlags_restores.weaken fun c h hd => by rw [h] at hd; cases hd
  have hr : Restores (fun c => c.dim = false) (modify fun c => { c with reprobe := reprobe })
      (fun c => { c with reprobe := reprobe }) fun _ => [] := Bus.Acts.modify fun _ => rfl
  have hk : ∀ c : Chip, c.dim = false → (cacheDefaultMixer c).dim = false := fun c h =>
    List.foldlRecOn (motive := fun c : Chip => c.dim = false) (List.finRange 6) _ h
      fun c hc out _ => hc
  exact he.bind (fun _ h => h) fun _ => hm.bind hk fun _ => hf.andThen hr

/-- The preamp readback, which changes the cache when it got through. -/
theorem readback_run {st0 : U8} {w w' : World} {a : Unit}
    (h : (do
      let got ← attempt (Bus.M.recv .usb ())
      when got (modify (cachePreamp st0)) : Usb Unit) w = (.ok a, w')) :
    w'.wire = w.wire ∧ w'.chip = (if w.usb 0 then some st0 else none).elim w.chip fun st0 =>
      cachePreamp st0 w.chip := by
  simp only [Bus.M.bind_run, attempt, Bus.M.recv, when] at h
  cases hu : w.usb 0 <;> simp only [hu, Bool.false_eq_true, if_false, if_true] at h <;> cases h
  · exact ⟨rfl, rfl⟩
  · exact ⟨rfl, rfl⟩

/-- What a card holds in its cache, and what was sent to it, as it is registered, by what the readback
returned. -/
theorem probeRegister_run_of {st0 : U8} {reprobe : Bool} {p : Params} {usb : ℕ → Bool} {w : World}
    (h : probeRegister st0 reprobe ⟨probeChip p, [], [], usb⟩ = (.ok (), w)) :
    w.chip.quiet = registeredChip (preampRead st0 p usb) reprobe p ∧
      w.wire.map Xfer.write = probeRegs (preampRead st0 p usb) p := by
  -- The blocks of the probe, one after the other, each with no failed transfer.
  unfold probeRegister at h
  obtain ⟨_, w₁, h₁, h⟩ := Bus.M.bind_eq_ok h
  obtain ⟨_, w₂, h₂, h⟩ := Bus.M.bind_eq_ok h
  rw [← bind_assoc] at h
  obtain ⟨_, w₃, h₃, h⟩ := Bus.M.bind_eq_ok h
  have hi : Writes (usbSetInterface BF_ALT_1) fun _ => [(.iface, .alt BF_ALT_1)] := Bus.Sends.send _
  obtain ⟨hc₁, hw₁, -⟩ := hi.run_ok h₁
  obtain ⟨hc₂, hw₂, -⟩ := bfColdInit_restores (fun _ => True) _ _ _ trivial h₂
  obtain ⟨hw₃, hc₃⟩ := readback_run h₃
  -- The readback comes right after the cold start.
  have hhead : probeHead ⟨probeChip p, [], [], usb⟩ = (.ok (), w₂) := by
    unfold probeHead
    rw [Bus.M.bind_of_ok h₁, h₂]
  have hst : (if w₂.usb 0 then some st0 else none) = preampRead st0 p usb := by
    unfold preampRead
    rw [hhead]
  rw [hst] at hc₃
  generalize preampRead st0 p usb = st at hc₃ ⊢
  have hq₂ : w₂.chip.quiet = probeChip p := hc₂.trans hc₁
  have hq₃ : w₃.chip.quiet = st.elim (probeChip p) fun st0 => cachePreamp st0 (probeChip p) := by
    rw [hc₃]
    cases st with
    | none => exact hq₂
    | some st0 => exact congrArg (fun c : Chip => (cachePreamp st0 c)) hq₂
  -- DIM starts disengaged, whatever was read.
  have hd : w₃.chip.quiet.dim = false := by
    rw [hq₃]
    cases st <;> rfl
  obtain ⟨hc, hw, -⟩ := registerTail_restores reprobe _ _ _ hd h
  refine ⟨by rw [hc, hq₃, registeredChip, probedMixer, readChip], ?_⟩
  have hp : (probeChip p).quiet = probeChip p := rfl
  rw [hw, hw₃, hw₂, hw₁, hc₁, hq₃]
  simp only [probeRegs, probedMixer, readChip, hp, List.map_nil, List.nil_append, List.append_nil,
    List.append_assoc]

/-- What a successful probe leaves in the cache and on the wire, by what the readback returned. -/
theorem babyfaceProbe_run_of {st0 : U8} {reprobe : Bool} {jiffies : ℤ} {p : Params} {usb : ℕ → Bool}
    {w : World} (h : babyfaceProbe st0 reprobe jiffies ⟨probeChip p, [], [], usb⟩ = (.ok (), w)) :
    w.chip.quiet = probedChip (preampRead st0 p usb) reprobe jiffies p ∧
      w.wire.map Xfer.write = probeRegs (preampRead st0 p usb) p := by
  rw [babyfaceProbe_eq] at h
  obtain ⟨_, w₁, h₁, h⟩ := Bus.M.bind_eq_ok h
  obtain ⟨hc, hw⟩ := probeRegister_run_of h₁
  cases h
  refine ⟨?_, hw⟩
  have hstart : (babyfacePanelStart jiffies w₁.chip).quiet =
      babyfacePanelStart jiffies w₁.chip.quiet := rfl
  rw [hstart, hc]
  rfl

/-- What a probe leaves in the cache, and what it has written. -/
theorem babyfaceProbe_run {st0 : U8} {reprobe : Bool} {jiffies : ℤ} {p : Params} {w : World}
    (h : Probed st0 reprobe jiffies p w) :
    ∃ st, w.chip.quiet = probedChip st reprobe jiffies p ∧ w.wire.map Xfer.write = probeRegs st p := by
  obtain ⟨usb, h⟩ := h.run
  exact ⟨preampRead st0 p usb, babyfaceProbe_run_of h⟩

end BabyfacePro
