import BabyfacePro.Core.Announce
import BabyfacePro.Core.EqUpload
import BabyfacePro.Core.Preamp

/-!
# The device after a resume

A resume writes the device anew from the cache, whatever the device holds: it may have lost its power, or
kept its state. `Rebuilt` says register by register what is left then, and `resume_rebuilds` that a resume
without failed transfers leaves it, and when the cache describes that device (`Coherent`). The one register
that a resume may skip is the DIM flag.
-/

namespace BabyfacePro

open Registers (last Avoids Holds)

/-! ## A resume without failed transfers -/

/-- The writes of a resume, the EQ's included. -/
def rebuildRegs (c : Chip) : List (Reg × Datum) := resumeRegs c ++ reuploadRegs c

/-- A resume writes the registers and changes nothing of the cache. -/
theorem bfResumeRegs_restores : Restores Chip.DimSaved bfResumeRegs id resumeRegs := by
  refine Bus.Acts.get fun c => ⟨id, ?_⟩
  have hi : Writes (usbSetInterface c.alt) fun _ => [(.iface, .alt c.alt)] := Bus.Sends.send _
  have h := hi.acts.andThen <| (bfColdInit_restores fun s => s.DimSaved ∧ s = c.quiet).andThen <|
    (babyfaceRestoreState_restores _).andThen <| bfStateApplyFlags_restores.weaken fun _ h => h.1
  exact ⟨_, h, rfl, rfl⟩

/-- Of a rate that the device has, a replay returns no error unless a transfer fails. -/
theorem bfResumeRegs_live {w : World} (hl : Live w) (hrate : w.chip.Rated) :
    ∃ w', bfResumeRegs w = (.ok (), w') ∧ Live w' := by
  obtain ⟨r, hr, hrate⟩ := hrate
  let P : Chip → Prop := fun c => c.rate = w.chip.rate
  have hq : ∀ c d : Chip, d.quiet = c.quiet → P c → P d := fun c d hcd hc => by
    rw [Chip.quiet_eq hcd]
    exact hc
  -- The lookup of a rate of the table finds its row.
  have hsome : ∀ c, P c → (bfRateLookup c.rate).isSome = true := fun c hc => by
    rw [show c.rate = r.rate from hc.trans hrate.symm, bfRateLookup_of_mem hr]
    rfl
  have hiface : Bus.Lives P (usbSetInterface w.chip.alt) := by
    have hw : Writes (usbSetInterface w.chip.alt) fun _ => [(.iface, .alt w.chip.alt)] := Bus.Sends.send _
    exact hw.lives hq
  have hlives : Bus.Lives P (do
      usbSetInterface w.chip.alt
      bfColdInit
      babyfaceRestoreState
      bfStateApplyFlags) :=
    hiface.bind fun _ => (bfColdInit_lives hq hsome).bind fun _ =>
      (babyfaceRestoreState_lives hq hsome).bind fun _ => bfStateApplyFlags_lives hq fun _ hc => hc
  obtain ⟨_, w', hrun, -, hl'⟩ := hlives w hl rfl
  exact ⟨w', hrun, hl'⟩

/-- A resume then sends the whole cache, and computes the EQ anew. -/
theorem babyfaceResume_live {w : World} (hl : Live w) (hd : w.chip.DimSaved)
    (hrate : w.chip.Rated) (jiffies : ℤ) :
    ∃ w', babyfaceResume jiffies w = (.ok (), w') ∧ w'.chip.toMixer = w.chip.toMixer ∧
      w'.chip.eq = (recomputeAll w.chip).eq ∧ w'.chip.eqFs = w.chip.eqFs ∧
      w'.wire.map Xfer.write = w.wire.map Xfer.write ++ rebuildRegs w.chip.quiet := by
  obtain ⟨w₁, h₁, hl₁⟩ := bfResumeRegs_live hl hrate
  obtain ⟨hc₁, hw₁, -⟩ := bfResumeRegs_restores w () w₁ hd h₁
  -- After the registers the EQ is computed and sent in full.
  obtain ⟨w₂, h₂, hc₂, hw₂, -⟩ := bfEqReupload_does.run_live hl₁
  have hc₁' : w₁.chip.quiet = w.chip.quiet := hc₁
  rw [hc₁'] at hc₂ hw₂
  have hquiet : w₂.chip.quiet = (recomputeAll w.chip).quiet := hc₂
  refine ⟨{ w₂ with chip := babyfacePanelStart jiffies w₂.chip }, ?_, ?_, ?_, ?_, ?_⟩
  · unfold babyfaceResume
    rw [bfResumeLocked_eq, Bus.M.bind_of_ok ((Bus.M.bind_of_ok h₁ _).trans h₂)]
    rfl
  · have hmixer := congrArg Chip.toMixer hquiet
    exact hmixer
  · have heq := congrArg Chip.eq hquiet
    exact heq
  · have hfs := congrArg Chip.eqFs hquiet
    exact hfs
  · rw [hw₂, hw₁, List.append_assoc]
    rfl

/-! ## The registers of a single list -/

/-- The gains, the loopback map and the DIM flag, and the registers of the cold init's clear. -/
def Reg.isLone : Reg → Bool
  | .ctl req idx => req = BF_REQ_REG_CLEAR || req = BF_REQ_LOOPBACK ||
      (req = BF_REQ_GAIN && decide (idx < BF_REG_MASTER_8)) || (req = BF_REQ_PREAMP && idx = 0x2000)
  | _ => false

/-- The clears are written alone. -/
theorem Reg.isLone_of_isClear {a : Reg} (h : a.isClear = true) : a.isLone = true := by
  cases a <;> simp_all [Reg.isClear, Reg.isLone]

/-- A word of any other request is not. -/
theorem word_not_lone {req : ℕ} (idx : ℕ) (v : U16) (h : req ≠ BF_REQ_REG_CLEAR ∧ req ≠ BF_REQ_LOOPBACK ∧
    req ≠ BF_REQ_GAIN ∧ req ≠ BF_REQ_PREAMP) : ¬ (word req idx v).1.isLone = true := by
  simp [word, Reg.isLone, h]

/-- Nor is a crosspoint. -/
theorem xreg_not_lone (idx : ℕ) (v : U16) : ¬ (xreg idx v).1.isLone = true :=
  word_not_lone idx v (by decide)

/-- Nor the masters of an output. -/
theorem outRegs_not_lone (out : Out) (muted dim : Bool) (l r : U16) :
    Misses Reg.isLone (outRegs out muted dim l r) := by
  have h : ∀ idx v, BF_REG_MASTER_8 ≤ idx → ¬ (word BF_REQ_GAIN idx v).1.isLone = true := fun idx v hi => by
    simp [word, Reg.isLone, BF_REQ_GAIN, BF_REQ_REG_CLEAR, BF_REQ_LOOPBACK, BF_REQ_PREAMP, not_lt.mpr hi]
  exact .cons (h _ _ (by omega)) <| .cons (h _ _ (by omega)) <| .cons (xreg_not_lone _ _) <|
    .cons (xreg_not_lone _ _) .nil

/-- Nor the commit. -/
theorem commitRegs_not_lone (c : Chip) : Misses Reg.isLone (commitRegs c) :=
  .cons (word_not_lone _ _ (by decide)) .nil

/-- Nor the preamp's byte. -/
theorem preampRegs_not_lone (c : Chip) : Misses Reg.isLone (preampRegs c) := by
  have hbyte : ¬ preampReg.isLone = true := by decide
  exact .cons hbyte (commitRegs_not_lone c)

/-- Nor the link word. -/
theorem linkRegs_not_lone (linked an12 : Bool) (c : Chip) : Misses Reg.isLone (linkRegs linked an12 c) := by
  have hlink : ¬ (Reg.ctl BF_REQ_PREAMP 0x1000).isLone = true := by decide
  exact .cons hlink (commitRegs_not_lone c)

/-- Nor a pair of crosspoints. -/
theorem xpointRegs_not_lone (out : Out) (src : Src) (l r : U16) : Misses Reg.isLone (xpointRegs out src l r) :=
  .cons (xreg_not_lone _ _) (.cons (xreg_not_lone _ _) .nil)

/-- Nor the crosspoints of an output. -/
theorem blockRegs_not_lone (out : Out) (xpoint : Src → Side → U16) :
    Misses Reg.isLone (blockRegs out xpoint) :=
  .append (.flatMap fun _ _ => xpointRegs_not_lone _ _ _ _) <|
    .append (.map fun _ _ => xreg_not_lone _ _) (.map fun _ _ => xreg_not_lone _ _)

/-- Nor the settings word. -/
theorem settingsRegs_not_lone (c : Chip) : Misses Reg.isLone (settingsRegs c) :=
  .cons (word_not_lone _ _ (by decide)) .nil

/-- Nor the clock. -/
theorem clockRegs_not_lone (c : Chip) : Misses Reg.isLone (rateRegs clockRegs c ++ pitchRegs c.pitch c) :=
  .append (rateRegs_misses (fun _ c => .cons (word_not_lone _ _ (by decide)) (settingsRegs_not_lone c)) c) <|
    .append (.map fun _ _ => word_not_lone _ _ (by decide)) (settingsRegs_not_lone c)

/-- The overlays are crosspoints. -/
theorem overlays_not_lone (c : Chip) :
    (∀ w, Misses Reg.isLone (widthRegs w)) ∧ (∀ v, Misses Reg.isLone (fxRegs v)) ∧ Misses Reg.isLone msRegs ∧
      (∀ mic, Misses Reg.isLone (phaseRegs mic true c)) ∧ (∀ pb, Misses Reg.isLone (splitRegs pb true c)) ∧
      ∀ mic v, Misses Reg.isLone (trimRegs mic v) := by
  refine ⟨fun w x hx => ?_, fun v => .cons (xreg_not_lone _ _) (.cons (xreg_not_lone _ _) .nil),
    .append (xpointRegs_not_lone 1 1 0 0) (xpointRegs_not_lone 0 1 0 0),
    fun mic => .map fun _ _ => xreg_not_lone _ _, fun pb => xpointRegs_not_lone _ _ _ _,
    fun mic v => .append (xpointRegs_not_lone _ _ _ _) (xpointRegs_not_lone _ _ _ _)⟩
  simp only [widthRegs, List.mem_cons, List.not_mem_nil, or_false] at hx
  obtain rfl | rfl | rfl | rfl | rfl | rfl | rfl | rfl := hx <;> exact xreg_not_lone _ _

/-- What a replay writes after the cold init. -/
def tailRegs (c : Chip) : List (Reg × Datum) := restoreRegs c ++ flagRegs c

/-- The lists of a replay that write lone registers. -/
def loneRegs (c : Chip) : List (Reg × Datum) :=
  (List.finRange 4).flatMap (fun mic => gainRegs mic (c.gain mic).toNat) ++
    (loopbackRegs (loopbackOn c) (0 ≤ loopbackOn c) ++ if c.dim then dimFlagRegs true else [])

/-- Of the tail of a resume, the registers that one part alone writes. -/
theorem last_tailRegs_lone {a : Reg} (ha : a.isLone = true) (c : Chip) :
    last (tailRegs c) a = last (loneRegs c) a := by
  obtain ⟨hwidth, hfx, hms, hphase, hsplit, htrim⟩ := overlays_not_lone c
  have hmaster : last ((List.finRange 6).flatMap fun out =>
      outRegs out (c.muted out) false (c.master out 0) (c.master out 1)) a = none :=
    Avoids.last_eq_none (.flatMap fun out _ => outRegs_not_lone out _ _ _ _) ha
  have hblock : last ((List.finRange 6).flatMap fun out => blockRegs out (c.xpoint out)) a = none :=
    Avoids.last_eq_none (.flatMap fun out _ => blockRegs_not_lone out _) ha
  have hclock : (last (pitchRegs c.pitch c) a).or (last (rateRegs clockRegs c) a) = none := by
    rw [← Registers.last_append]
    exact (clockRegs_not_lone c).last_eq_none ha
  have hwidth' : last (if c.width ≠ 0 then widthRegs c.width else []) a = none :=
    Avoids.last_eq_none (.ite fun _ => hwidth _) ha
  have hms' : last (if c.ms_proc then msRegs else []) a = none :=
    Avoids.last_eq_none (.ite fun _ => hms) ha
  have hphase' : last ((List.finRange 4).flatMap fun mic =>
      if c.phase mic then phaseRegs mic true c else []) a = none :=
    Avoids.last_eq_none (.flatMap fun mic _ => .ite fun _ => hphase mic) ha
  have hsplit' : last ((List.finRange 6).flatMap fun pb =>
      if c.split pb then splitRegs pb true c else []) a = none :=
    Avoids.last_eq_none (.flatMap fun pb _ => .ite fun _ => hsplit pb) ha
  have htrim' : last ([0, 2].flatMap fun mic =>
      if c.trim mic ≠ 0 then trimRegs mic (c.trim mic * 2) else []) a = none :=
    Avoids.last_eq_none (.flatMap fun mic _ => .ite fun _ => htrim mic _) ha
  -- Of DIM's registers the flag is lone.
  have hdim : last (if c.dim then dimRegs true c else []) a =
      last (if c.dim then dimFlagRegs true else []) a := by
    split
    · rw [dimRegs, Registers.last_append, (outRegs_not_lone _ _ _ _ _).last_eq_none ha, Option.or_none]
    · rfl
  simp only [tailRegs, loneRegs, restoreRegs, flagRegs, Registers.last_append, hmaster, hblock, hclock, hwidth',
    (hfx _).last_eq_none ha, hms', hphase', hsplit', htrim', hdim, (preampRegs_not_lone c).last_eq_none ha,
    (linkRegs_not_lone _ _ c).last_eq_none ha, Option.none_or, Option.or_none]

/-- The DIM flag. -/
def dimReg : Reg := .ctl BF_REQ_PREAMP 0x2000

/-- It ends with the gains of the cache. -/
theorem last_loneRegs_gain (c : Chip) (mic : Mic) :
    ∀ w ∈ gainRegs mic (c.gain mic).toNat, last (loneRegs c) w.1 = some w.2 := by
  intro w hw
  obtain rfl := List.mem_singleton.mp hw
  have hloop : Avoids (fun a => a = Reg.ctl BF_REQ_GAIN (BF_REG_GAIN + mic))
      (loopbackRegs (loopbackOn c) (0 ≤ loopbackOn c)) :=
    .map fun ch _ he => absurd (Reg.ctl.inj he).1 (by decide)
  have hdim : Avoids (fun a => a = Reg.ctl BF_REQ_GAIN (BF_REG_GAIN + mic))
      (if c.dim then dimFlagRegs true else []) :=
    .ite fun _ => .cons (fun he => absurd (Reg.ctl.inj he).1 (by decide)) .nil
  have hothers : ∀ m ∈ List.finRange 4, m ≠ mic →
      Avoids (fun a => a = Reg.ctl BF_REQ_GAIN (BF_REG_GAIN + mic)) (gainRegs m (c.gain m).toNat) :=
    fun m _ hne => .cons (fun he => hne (Fin.ext (Nat.add_left_cancel (Reg.ctl.inj he).2))) .nil
  show last (loneRegs c) (.ctl BF_REQ_GAIN (BF_REG_GAIN + mic)) =
    some (.word ((bfGainRaw mic (c.gain mic).toNat).setWidth 16))
  rw [loneRegs, Registers.last_append, Registers.last_append, hdim.last_eq_none rfl, hloop.last_eq_none rfl,
    Option.or_none, Option.none_or, Registers.last_flatMap_of_mem (List.mem_finRange mic) hothers, gainRegs,
    word, Registers.last_singleton, if_pos rfl]

/-- With its loopback map. -/
theorem last_loneRegs_loopback (c : Chip) :
    ∀ w ∈ loopbackRegs (loopbackOn c) (0 ≤ loopbackOn c), last (loneRegs c) w.1 = some w.2 := by
  intro w hw
  have hn : ((loopbackRegs (loopbackOn c) (0 ≤ loopbackOn c)).map Prod.fst).Nodup := by
    have haddr : ((loopbackRegs 0 true).map Prod.fst).Nodup := by decide
    have hsame : (loopbackRegs (loopbackOn c) (0 ≤ loopbackOn c)).map Prod.fst =
        (loopbackRegs 0 true).map Prod.fst := by
      simp only [loopbackRegs, List.map_map]
      rfl
    rw [hsame]
    exact haddr
  have hdim : last (if c.dim then dimFlagRegs true else []) w.1 = none := by
    obtain ⟨ch, -, rfl⟩ := List.mem_map.mp hw
    have havoid : Avoids (fun a => a = Reg.ctl BF_REQ_LOOPBACK ch) (if c.dim then dimFlagRegs true else []) :=
      .ite fun _ => .cons (fun he => absurd (Reg.ctl.inj he).1 (by decide)) .nil
    exact havoid.last_eq_none rfl
  rw [loneRegs, Registers.last_append, Registers.last_append, hdim, Option.none_or,
    Registers.last_of_mem hn hw, Option.some_or]

/-- And with the DIM flag, if DIM is engaged. -/
theorem last_loneRegs_dim (c : Chip) :
    last (loneRegs c) dimReg = if c.dim then some (.word 0x2000) else none := by
  have hgain : Avoids (fun a => a = dimReg)
      ((List.finRange 4).flatMap fun mic => gainRegs mic (c.gain mic).toNat) :=
    .flatMap fun mic _ => .cons (fun he => absurd (Reg.ctl.inj he).1 (by decide)) .nil
  have hloop : Avoids (fun a => a = dimReg) (loopbackRegs (loopbackOn c) (0 ≤ loopbackOn c)) :=
    .map fun ch _ he => absurd (Reg.ctl.inj he).1 (by decide)
  rw [loneRegs, Registers.last_append, Registers.last_append, hgain.last_eq_none rfl, hloop.last_eq_none rfl,
    Option.or_none, Option.or_none]
  cases c.dim <;> rfl

/-- The map of the switches is the one that a replay writes. -/
theorem loopbackMap_eq {c : Chip} (h : c.OneLoopback) :
    loopbackMap c = loopbackRegs (loopbackOn c) (0 ≤ loopbackOn c) := by
  refine List.map_congr_left fun ch _ => congrArg _ (if_congr ?_ rfl rfl)
  unfold loopbackOn
  cases hf : (List.finRange 6).find? c.loopback with
  -- With no loopback on, the map is clear.
  | none =>
    have hoff : ∀ out : Out, ¬ c.loopback out = true := fun out =>
      List.find?_eq_none.mp hf out (List.mem_finRange out)
    simp [hoff]
  -- With one on it is the only one, and its pair of channels is marked.
  | some prev =>
    have hon : c.loopback prev = true := List.find?_some hf
    have hpos : (0 : ℤ) ≤ (prev.val : ℤ) := Int.natCast_nonneg _
    simp only [hpos, decide_true, true_and]
    constructor
    · rintro ⟨out, ho, hch⟩
      rw [h out prev ho hon] at hch
      omega
    · intro hch
      exact ⟨prev, hon, by omega⟩

/-! ## What the device holds -/

/-- What a device holds after a resume of the cache `c`, if it held `d` before. -/
structure Rebuilt (d D : Reg → Datum) (c : Chip) : Prop where
  masters : ∀ out side, D (reg8 out side) = c.word8 out side ∧ D (reg16 out side) = c.word16 out side
  /-- The crosspoints have the word of the topmost overlay. -/
  points : ∀ out src side, D (pointReg out src side) = .word (c.shown out src side)
  cross : ∀ out, Holds D (crossRegs out)
  fx : Holds D (fxRegs c.fx_send)
  loopback : Holds D (loopbackMap c)
  preamp : ∀ f : PreampReg, D f.reg = f.datum c
  /-- The DIM flag is set where DIM is engaged, and left alone where it is not. -/
  dim : D dimReg = if c.dim then .word 0x2000 else d dimReg
  gains : ∀ mic, Holds D (gainRegs mic (c.gain mic).toNat)
  eq : ∀ strip, Holds D (eqRegs strip ((c.eq strip).recompute c.eqFs))

/-- Another cache with the same mixer and the same EQ. -/
theorem Rebuilt.congr {d D : Reg → Datum} {c c' : Chip} (h : Rebuilt d D c) (hm : c'.toMixer = c.toMixer)
    (heq : ∀ strip, (c'.eq strip).recompute c'.eqFs = (c.eq strip).recompute c.eqFs) : Rebuilt d D c' := by
  obtain ⟨_, _, _, _, _⟩ := c'
  cases hm
  exact ⟨h.masters, h.points, h.cross, h.fx, h.loopback, h.preamp, h.dim, h.gains,
    fun strip => by rw [heq]; exact h.eq strip⟩

/-- After the clears of a resume nothing is cleared. -/
theorem tailRegs_not_clear (c : Chip) : Misses Reg.isClear (tailRegs c ++ reuploadRegs c) := by
  obtain ⟨hwidth, hfx, hms, hphase, hsplit, htrim⟩ := overlays_not_lone c
  have hgain : Misses Reg.isClear ((List.finRange 4).flatMap fun mic => gainRegs mic (c.gain mic).toNat) :=
    .flatMap fun mic _ => .cons (word_not_clear _ _ (by decide)) .nil
  have hloop : Misses Reg.isClear (loopbackRegs (loopbackOn c) (0 ≤ loopbackOn c)) :=
    .map fun _ _ => word_not_clear _ _ (by decide)
  have hflag : Misses Reg.isClear (dimFlagRegs true) := .cons (word_not_clear _ _ (by decide)) .nil
  -- The lists without lone registers clear nothing.
  have hplain : ∀ {ws : List (Reg × Datum)}, Misses Reg.isLone ws → Misses Reg.isClear ws := fun h =>
    h.mono fun _ => Reg.isLone_of_isClear
  have hrestore : Misses Reg.isClear (restoreRegs c) := by
    refine .append (hplain (preampRegs_not_lone c)) (.append hgain (.append ?_ (.append ?_ ?_)))
    · exact .flatMap fun out _ => hplain (outRegs_not_lone out _ _ _ _)
    · exact .flatMap fun out _ => hplain (blockRegs_not_lone out _)
    · exact hplain (clockRegs_not_lone c)
  have hflags : Misses Reg.isClear (flagRegs c) := by
    refine .append hloop (.append (hplain (linkRegs_not_lone _ _ c)) ?_)
    refine .append (.ite fun _ => hplain (hwidth _)) (.append (hplain (hfx _)) ?_)
    refine .append (.ite fun _ => hplain hms) (.append (.ite fun _ => ?_) ?_)
    · exact .append (hplain (outRegs_not_lone 1 _ _ _ _)) hflag
    · exact .append (.flatMap fun mic _ => .ite fun _ => hplain (hphase mic)) <|
        .append (.flatMap fun pb _ => .ite fun _ => hplain (hsplit pb)) <|
        .flatMap fun mic _ => .ite fun _ => hplain (htrim mic _)
  have heq : Misses Reg.isClear (reuploadRegs c) :=
    .flatMap fun strip _ => .map fun side _ => Bool.false_ne_true
  exact .append (.append hrestore hflags) heq

/-- Registers that a write does not name, nor a clear, hold what they held. -/
theorem contents_of_last {d : Reg → Datum} {wire wire' : List Xfer} {vs : List (Reg × Datum)} {a : Reg}
    (hw : wire'.map Xfer.write = wire.map Xfer.write ++ vs) (ha : ∀ idx, a ≠ .ctl BF_REQ_CROSSPOINT idx)
    (h : last vs a = none) : contents d wire' a = contents d wire a := by
  have hmem : a ∉ (vs.map effect).map Prod.fst := by
    intro hm
    obtain ⟨_, hy, he⟩ := List.mem_map.mp hm
    obtain ⟨x, hx, rfl⟩ := List.mem_map.mp hy
    have hname : x.1 = a := by
      unfold effect at he
      split at he
      · split at he
        · exact absurd he.symm (ha _)
        · exact he
      · exact he
    obtain ⟨v, hv⟩ := Registers.last_isSome (List.mem_map.mpr ⟨x, hx, hname⟩)
    cases hv.symm.trans h
  rw [contents_eq, contents_eq, hw, List.map_append, Registers.last_append, Registers.last_eq_none hmem,
    Option.none_or]

/-- No register of the blocks is a vendor register. -/
theorem last_tail_ctl (c : Chip) (req idx : ℕ) :
    last (tailRegs c ++ reuploadRegs c) (.ctl req idx) = last (tailRegs c) (.ctl req idx) := by
  have heq : Avoids (fun a => a = Reg.ctl req idx) (reuploadRegs c) :=
    .flatMap fun strip _ => .map fun side _ he => nomatch he
  rw [Registers.last_append, heq.last_eq_none rfl, Option.none_or]

/-- The masters and the crosspoints are written in the tail of the replay. -/
theorem last_tailRegs_mixer {a : Reg} (ha : a.isMixer = true) (c : Chip) :
    last (tailRegs c) a = last (resumeRegs c) a := by
  have hiface : last [((.iface, .alt c.alt) : Reg × Datum)] a = none :=
    Registers.last_eq_none fun h => by
      rw [List.map_singleton, List.mem_singleton] at h
      rw [h] at ha
      cases ha
  rw [resumeRegs, Registers.last_append, Registers.last_append, hiface, (coldRegs_misses c).last_eq_none ha,
    Option.or_none, Option.or_none]
  rfl

/-- A crosspoint ends with the word that is shown. -/
theorem last_tailRegs_point (c : Chip) (out : Out) (src : Src) (side : Side) :
    last (tailRegs c) (pointReg out src side) = some (.word (c.shown out src side)) := by
  have hx := pointReg_isXpoint out src side
  rw [last_tailRegs_mixer (Reg.isMixer_of_isXpoint hx), last_resumeRegs_xpoint hx, last_replayXpoints_point]

/-- The FX send and the cross registers, which no overlay is on. -/
theorem last_tailRegs_off (c : Chip) :
    (∀ w ∈ fxRegs c.fx_send, last (tailRegs c) w.1 = some w.2) ∧
      ∀ out, ∀ w ∈ crossRegs out, last (tailRegs c) w.1 = some w.2 := by
  have hoff : ∀ {a : Reg}, a.isXpoint = true → NoPoint a → last (tailRegs c) a =
      (last (fxRegs c.fx_send) a).or (last ((List.finRange 6).flatMap crossRegs) a) := fun hx hno => by
    rw [last_tailRegs_mixer (Reg.isMixer_of_isXpoint hx), last_resumeRegs_xpoint hx, last_replayXpoints_off hno]
  refine ⟨fun w hw => ?_, fun out w hw => ?_⟩
  -- The FX send is written after the last replay of the crosspoints, at two registers of its own.
  · have hn : ((fxRegs c.fx_send).map Prod.fst).Nodup := by
      have haddr : ((fxRegs 0).map Prod.fst).Nodup := by decide
      exact haddr
    obtain ⟨side, hside⟩ : ∃ side, w.1 = fxReg side := by
      simp only [fxRegs, List.mem_cons, List.not_mem_nil, or_false] at hw
      obtain rfl | rfl := hw
      · exact ⟨0, rfl⟩
      · exact ⟨1, rfl⟩
    have hlast : last (fxRegs c.fx_send) w.1 = some w.2 := Registers.last_of_mem hn hw
    rw [hoff (by rw [hside]; exact fxReg_isXpoint side)
      fun out src s he => pointReg_ne_fxReg out src s side (he.symm.trans hside), hlast, Option.some_or]
  -- Whatever is written last across a pair is the zero of the loop.
  · obtain ⟨hx, hzero, hno, hfx⟩ := cross_isXpoint out hw
    have hmem : w.1 ∈ ((List.finRange 6).flatMap crossRegs).map Prod.fst :=
      List.mem_map_of_mem (List.mem_flatMap.mpr ⟨out, List.mem_finRange out, hw⟩)
    rw [hoff hx hno, last_fxRegs_of_ne _ hfx, Option.none_or, hzero]
    refine Registers.last_eq_some hmem fun v hv _ => ?_
    obtain ⟨o, -, ho⟩ := List.mem_flatMap.mp hv
    exact (cross_isXpoint o ho).2.1

/-- A preamp register ends with its word. -/
theorem last_tailRegs_preamp (c : Chip) (f : PreampReg) : last (tailRegs c) f.reg = some (f.datum c) := by
  obtain ⟨hbyte, -, -⟩ := last_preampRegs c
  obtain ⟨hnone, hlink, hcommit⟩ := last_linkRegs c.linked c.an12 c
  rw [tailRegs, Registers.last_append, last_flagRegs_preamp, last_restoreRegs_preamp]
  cases f with
  | byte => rw [hnone, Option.none_or, hbyte]; rfl
  | link => rw [hlink, Option.some_or]; rfl
  | commit => rw [hcommit, Option.some_or]; rfl

/-- A channel's block ends with that of its parameters. -/
theorem last_tail_eq (c : Chip) (strip : Mic) :
    ∀ w ∈ eqRegs strip ((c.eq strip).recompute c.eqFs), last (tailRegs c ++ reuploadRegs c) w.1 = some w.2 := by
  intro w hw
  obtain ⟨side, -, rfl⟩ := List.mem_map.mp hw
  have hall := last_eqRegs_all (fun strip => (c.eq strip).recompute c.eqFs) strip side
  rw [Registers.last_append]
  exact congrArg (fun o : Option Datum => o.or _) hall

section Wire

variable {d : Reg → Datum} {wire wire' : List Xfer} {c : Chip}

/-- What the writes after the cold init leave in a register is left in the device. -/
theorem contents_of_tail (hw : wire'.map Xfer.write = wire.map Xfer.write ++ rebuildRegs c) {a : Reg}
    {v : Datum} (h : last (tailRegs c ++ reuploadRegs c) a = some v) : contents d wire' a = v := by
  have hsplit : wire'.map Xfer.write = (wire.map Xfer.write ++ ([(.iface, .alt c.alt)] ++ coldRegs c)) ++
      (tailRegs c ++ reuploadRegs c) := by
    rw [hw, rebuildRegs, resumeRegs, tailRegs]
    simp only [List.append_assoc]
  exact contents_tail hsplit (tailRegs_not_clear c) h

/-- A register that the tail writes has its word after the resume. -/
theorem contents_of_ctl (hw : wire'.map Xfer.write = wire.map Xfer.write ++ rebuildRegs c) {req idx : ℕ}
    {v : Datum} (h : last (tailRegs c) (.ctl req idx) = some v) : contents d wire' (.ctl req idx) = v :=
  contents_of_tail hw ((last_tail_ctl c req idx).trans h)

/-- A list of lone registers. -/
theorem holds_lone (hw : wire'.map Xfer.write = wire.map Xfer.write ++ rebuildRegs c) {ws : List (Reg × Datum)}
    (hws : ∀ w ∈ ws, w.1.isLone = true) (h : ∀ w ∈ ws, last (loneRegs c) w.1 = some w.2) :
    Holds (contents d wire') ws := by
  intro w hmem
  have hlone := hws w hmem
  have hv : last (tailRegs c) w.1 = some w.2 := (last_tailRegs_lone hlone c).trans (h w hmem)
  cases he : w.1 with
  | ctl req idx => exact contents_of_ctl hw (he ▸ hv)
  | iface => rw [he] at hlone; cases hlone
  | eq ch => rw [he] at hlone; cases hlone

/-- No write of a replay clears the DIM flag. -/
theorem contents_dim (hw : wire'.map Xfer.write = wire.map Xfer.write ++ rebuildRegs c) :
    contents d wire' dimReg = if c.dim then .word 0x2000 else contents d wire dimReg := by
  have hv : last (tailRegs c) dimReg = _ := (last_tailRegs_lone (by decide) c).trans (last_loneRegs_dim c)
  cases hd : c.dim with
  | true =>
    rw [hd] at hv
    exact contents_of_ctl hw hv
  -- With DIM off the flag is written nowhere, neither in the cold start nor after it.
  | false =>
    rw [hd] at hv
    refine contents_of_last hw (fun idx he => absurd (Reg.ctl.inj he).1 (by decide)) ?_
    have hcold : last (coldRegs c) dimReg = none := (coldRegs_not_kept c).last_eq_none (by decide)
    have hiface : last [((.iface, .alt c.alt) : Reg × Datum)] dimReg = none :=
      Registers.last_eq_none (by simp [dimReg])
    have hall : last (tailRegs c ++ reuploadRegs c) dimReg = none := (last_tail_ctl c _ _).trans hv
    have hregs : rebuildRegs c = [(.iface, .alt c.alt)] ++ (coldRegs c ++ (tailRegs c ++ reuploadRegs c)) := by
      rw [rebuildRegs, resumeRegs, tailRegs]
      simp only [List.append_assoc]
    rw [hregs, Registers.last_append, Registers.last_append, hall, hcold, hiface]
    rfl

/-- The writes of a resume leave the device as the cache has it. -/
theorem rebuilt_of_wire (h : c.OneLoopback) (hw : wire'.map Xfer.write = wire.map Xfer.write ++ rebuildRegs c) :
    Rebuilt (contents d wire) (contents d wire') c where
  -- Each part is a register's last write, over whatever the device held.
  masters out side := by
    obtain ⟨h8, h16⟩ := last_resumeRegs_word c out side
    rw [← last_tailRegs_mixer (Reg.isMixer_of_isMaster (reg8_isMaster out side))] at h8
    rw [← last_tailRegs_mixer (Reg.isMixer_of_isMaster (reg16_isMaster out side))] at h16
    exact ⟨contents_of_ctl hw h8, contents_of_ctl hw h16⟩
  points out src side := contents_of_ctl hw (last_tailRegs_point c out src side)
  cross out := fun w hmem => by
    have hv := (last_tailRegs_off c).2 out w hmem
    obtain hk | hk := List.mem_append.mp hmem
    · obtain ⟨k, -, rfl⟩ := List.mem_map.mp hk
      exact contents_of_ctl hw hv
    · obtain ⟨k, -, rfl⟩ := List.mem_map.mp hk
      exact contents_of_ctl hw hv
  fx := fun w hmem => by
    have hv := (last_tailRegs_off c).1 w hmem
    simp only [fxRegs, List.mem_cons, List.not_mem_nil, or_false] at hmem
    obtain rfl | rfl := hmem
    · exact contents_of_ctl hw hv
    · exact contents_of_ctl hw hv
  loopback := by
    rw [loopbackMap_eq h]
    refine holds_lone hw (fun w hmem => ?_) (last_loneRegs_loopback c)
    obtain ⟨ch, -, rfl⟩ := List.mem_map.mp hmem
    rfl
  preamp f := by
    have hv := last_tailRegs_preamp c f
    cases f <;> exact contents_of_ctl hw hv
  dim := contents_dim hw
  gains mic := by
    have hlone : ∀ mic : Mic, (Reg.ctl BF_REQ_GAIN (BF_REG_GAIN + mic)).isLone = true := by decide
    refine holds_lone hw (fun w hmem => ?_) (last_loneRegs_gain c mic)
    obtain rfl := List.mem_singleton.mp hmem
    exact hlone mic
  eq strip := fun w hmem => contents_of_tail hw (last_tail_eq c strip w hmem)

end Wire

/-- A rebuilt device is what the cache says of it, but for an engaged overlay, the ref level's bits and the DIM
flag. -/
theorem Rebuilt.coherent_iff {d D : Reg → Datum} {c : Chip} (h : Rebuilt d D c) :
    Coherent D c ↔ (c.dim = false → d dimReg = .word 0) ∧ c.RefBits ∧
      ∀ out src side, c.shown out src side = c.xpoint out src side := by
  constructor
  · intro hc
    -- The flag of a card without DIM was kept, so that it was clear before.
    refine ⟨fun hoff => ?_, ?_, fun out src side => ?_⟩
    · have hflag : D dimReg = .word 0 := by
        have hd := hc.dim
        rw [hoff] at hd
        exact hd _ List.mem_cons_self
      have hdim := h.dim
      rw [hoff, hflag] at hdim
      exact hdim.symm
    -- The byte is the cached one, and its level's bits are the level's.
    · obtain ⟨v, hv, -, href⟩ := hc.preamp
      have hbyte : v = c.preamp := Datum.word.inj (hv.symm.trans (h.preamp .byte))
      rwa [hbyte] at href
    -- The crosspoint that is shown is the word that the device holds.
    · have hpoint : D (pointReg out src side) = .word (c.xpoint out src side) := by
        have hblock := hc.xpoints out
        have hsrc : Holds D (xpointRegs out src (c.xpoint out src 0) (c.xpoint out src 1)) := fun w hw =>
          hblock w (List.mem_append_left _ (List.mem_flatMap.mpr ⟨src, List.mem_finRange src, hw⟩))
        obtain rfl | rfl := left_or_right side
        · exact hsrc _ List.mem_cons_self
        · exact hsrc _ (List.mem_cons_of_mem _ List.mem_cons_self)
      exact Datum.word.inj ((h.points out src side).symm.trans hpoint)
  · rintro ⟨hdim, href, hshown⟩
    have hpreamp : PreampHolds D c := ⟨c.preamp, h.preamp .byte, rfl, href⟩
    refine ⟨fun out side => .inl (h.masters out side), fun out w hw => ?_, h.loopback, hpreamp,
      h.preamp .link, ?_, h.fx, h.gains, h.eq⟩
    -- A word of the block is a control's own crosspoint, or one across a pair.
    · obtain hx | hx := List.mem_append.mp hw
      · obtain ⟨src, -, hx⟩ := List.mem_flatMap.mp hx
        have hpoint : ∀ side, D (pointReg out src side) = .word (c.xpoint out src side) := fun side => by
          rw [h.points, hshown]
        simp only [xpointRegs, List.mem_cons, List.not_mem_nil, or_false] at hx
        obtain rfl | rfl := hx
        · exact hpoint 0
        · exact hpoint 1
      · exact h.cross out w hx
    · intro w hw
      obtain rfl := List.mem_singleton.mp hw
      have hflag := h.dim
      -- The flag is set by the resume, or was clear before.
      cases hd : c.dim with
      | true => rw [hd] at hflag; exact hflag
      | false =>
        rw [hd] at hflag
        exact hflag.trans (hdim hd)

/-- The device and the cache after a resume without failed transfers. -/
theorem babyfaceResume_rebuilt {w : World} (hl : Live w) (hd : w.chip.DimSaved) (hone : w.chip.OneLoopback)
    (hrate : w.chip.Rated) (jiffies : ℤ) (d : Reg → Datum) :
    ∃ w', babyfaceResume jiffies w = (.ok (), w') ∧ w'.chip.toMixer = w.chip.toMixer ∧
      Rebuilt (contents d w.wire) (contents d w'.wire) w'.chip := by
  obtain ⟨w', hrun, hmixer, heq, hfs, hwire⟩ := babyfaceResume_live hl hd hrate jiffies
  have hwritten : Rebuilt (contents d w.wire) (contents d w'.wire) w.chip.quiet := rebuilt_of_wire hone hwire
  refine ⟨w', hrun, hmixer, hwritten.congr hmixer fun strip => ?_⟩
  rw [heq, hfs]
  rfl

/-- Whatever the device holds, a resume without failed transfers returns no error, changes no cached value of
the mixer and leaves the device as `Rebuilt` says. The cache then describes the device exactly when the DIM
flag was clear before or DIM is engaged, the ref level's bits are the level's, and no overlay hides a
crosspoint. -/
theorem resume_rebuilds {w : World} (h : Reachable w) (hl : Live w) (jiffies : ℤ) (d : Reg → Datum) :
    ∃ w', babyfaceResume jiffies w = (.ok (), w') ∧ w'.chip.toMixer = w.chip.toMixer ∧
      Rebuilt (contents d w.wire) (contents d w'.wire) w'.chip ∧
      (Coherent (contents d w'.wire) w'.chip ↔
        (w.chip.dim = false → contents d w.wire dimReg = .word 0) ∧ w.chip.RefBits ∧
          ∀ out src side, w.chip.shown out src side = w.chip.xpoint out src side) := by
  obtain ⟨w', hrun, hmixer, hbuilt⟩ := babyfaceResume_rebuilt hl h.sound.dim h.oneLoopback h.rated jiffies d
  -- The conditions are on the mixer cache, which the resume left alone.
  have hsame : ∀ c : Chip, c.toMixer = w.chip.toMixer → (((c.dim = false → contents d w.wire dimReg = .word 0) ∧
      c.RefBits ∧ ∀ out src side, c.shown out src side = c.xpoint out src side) ↔
      (w.chip.dim = false → contents d w.wire dimReg = .word 0) ∧ w.chip.RefBits ∧
        ∀ out src side, w.chip.shown out src side = w.chip.xpoint out src side) := by
    rintro ⟨_, _, _, _, _⟩ hm
    cases hm
    exact Iff.rfl
  exact ⟨w', hrun, hmixer, hbuilt, hbuilt.coherent_iff.trans (hsame _ hmixer)⟩

/-- A new card whose device has lost its registers. -/
def sleptCard : World := { freshCardWith fun _ => true with wire := [] }

/-- A resume sets right the input gain that a probe leaves at the level of an earlier session. -/
theorem resume_rebuilds_used :
    ∃ w', babyfaceResume 0 sleptCard = (.ok (), w') ∧ Coherent (contents usedDevice w'.wire) w'.chip := by
  have hreach : Reachable sleptCard := (freshCardWith_reachable fun _ => true).step (.suspend _)
  have hflag : contents usedDevice sleptCard.wire dimReg = .word 0 := by
    unfold sleptCard
    decide
  obtain ⟨w', hrun, -, -, hcoherent⟩ := resume_rebuilds hreach (fun _ => rfl) 0 usedDevice
  refine ⟨w', hrun, hcoherent.mpr ⟨fun _ => hflag, ?_, ?_⟩⟩
  · unfold Chip.RefBits
    decide +kernel
  · decide +kernel

end BabyfacePro
