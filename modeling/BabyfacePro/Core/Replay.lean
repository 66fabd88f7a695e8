import BabyfacePro.Core.Card

/-!
# What a replay leaves on the device

A resume writes some 700 registers. For the masters and for the crosspoints, this module says which
of its lists of writes decide what is left: the others name no register of theirs.
-/

namespace BabyfacePro

open Registers (last Avoids)
open Bus.M (get modify attempt)

/-! ## Classes of registers -/

/-- Gains, masters and crosspoints. -/
def Reg.isMixer : Reg → Bool
  | .ctl req _ => req = BF_REQ_GAIN || req = BF_REQ_CROSSPOINT
  | _ => false

/-- The masters of the outputs. -/
def Reg.isMaster : Reg → Bool
  | .ctl req idx => (req = BF_REQ_GAIN && decide (BF_REG_MASTER_8 ≤ idx)) ||
      (req = BF_REQ_CROSSPOINT && decide (BF_REG_MASTER_16 ≤ idx))
  | _ => false

/-- The crosspoints of the outputs and of the FX send. -/
def Reg.isXpoint : Reg → Bool
  | .ctl req idx => req = BF_REQ_CROSSPOINT && decide (idx ≤ 0x0153)
  | _ => false

/-- A master belongs to the mixer. -/
theorem Reg.isMixer_of_isMaster {a : Reg} (h : a.isMaster = true) : a.isMixer = true := by
  cases a <;> simp_all [Reg.isMaster, Reg.isMixer]
  tauto

/-- So does a crosspoint. -/
theorem Reg.isMixer_of_isXpoint {a : Reg} (h : a.isXpoint = true) : a.isMixer = true := by
  cases a <;> simp_all [Reg.isXpoint, Reg.isMixer]

/-- No write of the list is to a register of the class. -/
abbrev Misses (S : Reg → Bool) (ws : List (Reg × Datum)) : Prop := Avoids (fun a => S a = true) ws

/-! ## Lists without gains, masters and crosspoints -/

/-- A word of any other request does not. -/
theorem word_misses {req : ℕ} (idx : ℕ) (v : U16)
    (h : (req = BF_REQ_GAIN || req = BF_REQ_CROSSPOINT) = false) :
    ¬ (word req idx v).1.isMixer = true := by
  rw [Bool.not_eq_true]
  exact h

/-- The settings word writes nothing of the mixer. -/
theorem settingsRegs_misses (c : Chip) : Misses Reg.isMixer (settingsRegs c) :=
  .cons (word_misses _ _ (by decide)) .nil

/-- Nor does the varispeed quad. -/
theorem pitchRegs_misses (p : ℤ) (c : Chip) : Misses Reg.isMixer (pitchRegs p c) :=
  .append (.map fun _ _ => word_misses _ _ (by decide)) (settingsRegs_misses c)

/-- Nor the commit of the preamp. -/
theorem commitRegs_misses (c : Chip) : Misses Reg.isMixer (commitRegs c) :=
  .cons (word_misses _ _ (by decide)) .nil

/-- Nor the preamp. -/
theorem preampRegs_misses (c : Chip) : Misses Reg.isMixer (preampRegs c) :=
  .cons (word_misses _ _ (by decide)) (commitRegs_misses c)

/-- Nor the links. -/
theorem linkRegs_misses (linked an12 : Bool) (c : Chip) :
    Misses Reg.isMixer (linkRegs linked an12 c) :=
  .cons (word_misses _ _ (by decide)) (commitRegs_misses c)

/-- Nor the loopback map. -/
theorem loopbackRegs_misses (out : ℤ) (on : Bool) : Misses Reg.isMixer (loopbackRegs out on) :=
  .map fun _ _ => word_misses _ _ (by decide)

/-- Nor the DIM flag. -/
theorem dimFlagRegs_misses (on : Bool) : Misses Reg.isMixer (dimFlagRegs on) :=
  .cons (word_misses _ _ (by decide)) .nil

/-- Nor what is written for a rate, if no rate of the table does. -/
theorem rateRegs_misses {S : Reg → Bool} {ws : BfRate → Chip → List (Reg × Datum)}
    (h : ∀ r c, Misses S (ws r c)) (c : Chip) : Misses S (rateRegs ws c) := by
  unfold rateRegs
  split
  · exact .nil
  · exact h _ c

/-- Nor the clock. -/
theorem clockRegs_misses (r : BfRate) (c : Chip) : Misses Reg.isMixer (clockRegs r c) :=
  .cons (word_misses _ _ (by decide)) (settingsRegs_misses c)

/-- Nor the init. -/
theorem initRegs_misses (r : BfRate) (c : Chip) : Misses Reg.isMixer (initRegs r c) := by
  have h : ∀ n idx v, Misses Reg.isMixer (List.replicate n (word BF_REQ_KEEPALIVE idx v)) :=
    fun n idx v w hw => by
      rw [List.eq_of_mem_replicate hw]
      exact word_misses _ _ (by decide)
  exact .append (.append (.cons (word_misses _ _ (by decide)) <| .cons (word_misses _ _ (by decide)) <|
    .cons (word_misses _ _ (by decide)) .nil) (h _ _ _)) (h _ _ _)

/-- Nor the cold init. -/
theorem coldRegs_misses (c : Chip) : Misses Reg.isMixer (coldRegs c) :=
  .append (.map fun _ _ => word_misses _ _ (by decide)) <|
    .append (pitchRegs_misses _ c) <| .append (.cons (word_misses _ _ (by decide)) .nil) <|
    rateRegs_misses initRegs_misses c

/-! ## Masters -/

/-- The masters of every output, as the replay writes them first: without DIM. -/
def replayMasters (c : Chip) : List (Reg × Datum) :=
  (List.finRange 6).flatMap fun out =>
    outRegs out (c.muted out) false (c.master out 0) (c.master out 1)

/-- A crosspoint is no master. -/
theorem xreg_not_master {idx : ℕ} (v : U16) (h : idx < BF_REG_MASTER_16) :
    ¬ (xreg idx v).1.isMaster = true := by
  have hn : ¬ BF_REG_MASTER_16 ≤ idx := by omega
  have hg : BF_REQ_CROSSPOINT ≠ BF_REQ_GAIN := by decide
  simp [xreg, word, Reg.isMaster, hn, hg]

/-- The crosspoints lie below the masters. -/
theorem xpoint_lt (out : Out) (src : Src) :
    xpointL out src < 0x138 ∧ xpointR out src < 0x138 := by
  revert out src
  decide

/-- A pair of crosspoints writes no master. -/
theorem xpointRegs_not_master (out : Out) (src : Src) (l r : U16) :
    Misses Reg.isMaster (xpointRegs out src l r) := by
  obtain ⟨hl, hr⟩ := xpoint_lt out src
  have h : 0x138 < BF_REG_MASTER_16 := by decide
  exact .cons (xreg_not_master _ (by omega)) (.cons (xreg_not_master _ (by omega)) .nil)

/-- Nor do the crosspoints across a pair. -/
theorem crossRegs_not_master (pair : Out) : Misses Reg.isMaster (crossRegs pair) := by
  have h : ∀ k ∈ crossL ++ crossR, BF_REG_XPOINT_BASE_R + BF_REG_XPOINT_STRIDE * pair + k <
      BF_REG_MASTER_16 := by revert pair; decide
  refine .append (.map fun k hk => xreg_not_master _ ?_) (.map fun k hk => xreg_not_master _ ?_)
  · have := h k (List.mem_append_left _ hk)
    unfold BF_REG_XPOINT_BASE_R at this
    unfold BF_REG_XPOINT_BASE_L
    omega
  · exact h k (List.mem_append_right _ hk)

/-- Nor those of an output. -/
theorem blockRegs_not_master (out : Out) (xpoint : Src → Side → U16) :
    Misses Reg.isMaster (blockRegs out xpoint) :=
  .append (.flatMap fun src _ => xpointRegs_not_master out src _ _) (crossRegs_not_master out)

/-- The overlays on the crosspoints are no masters. -/
theorem overlays_not_master (c : Chip) :
    Misses Reg.isMaster (widthRegs c.width) ∧ Misses Reg.isMaster (fxRegs c.fx_send) ∧
      Misses Reg.isMaster msRegs ∧ (∀ mic, Misses Reg.isMaster (phaseRegs mic true c)) ∧
      (∀ pb, Misses Reg.isMaster (splitRegs pb true c)) ∧
      ∀ mic v, Misses Reg.isMaster (trimRegs mic v) := by
  have h : ∀ idx v, idx ≤ 0x153 → ¬ (xreg idx v).1.isMaster = true := fun idx v hi =>
    xreg_not_master v (lt_of_le_of_lt hi (by decide))
  refine ⟨?_, ?_, ?_, fun mic => ?_, fun pb => ?_, fun mic v => ?_⟩
  · intro w hw
    simp only [widthRegs, List.mem_cons, List.not_mem_nil, or_false] at hw
    obtain rfl | rfl | rfl | rfl | rfl | rfl | rfl | rfl := hw <;> exact h _ _ (by decide)
  · exact .cons (h _ _ (by decide)) (.cons (h _ _ (by decide)) .nil)
  · exact .cons (h _ _ (by decide)) <| .cons (h _ _ (by decide)) <| .cons (h _ _ (by decide)) <|
      .cons (h _ _ (by decide)) .nil
  · exact .map fun out _ => h _ _ (by have := (xpoint_lt out mic.src).1; omega)
  · exact xpointRegs_not_master _ _ _ _
  · exact .append (xpointRegs_not_master _ _ _ _) (xpointRegs_not_master _ _ _ _)

/-- Nor a gain. -/
theorem gainRegs_not_master (mic : Mic) (db : ℤ) : Misses Reg.isMaster (gainRegs mic db) := by
  have h : ∀ mic : Mic, ¬ (Reg.ctl BF_REQ_GAIN (BF_REG_GAIN + mic)).isMaster = true := by decide
  exact .cons (h mic) .nil

/-- The masters that the replay leaves are those of `bf_apply_masters`, and on the Phones those of DIM
after them. -/
theorem last_resumeRegs_master {a : Reg} (ha : a.isMaster = true) (c : Chip) :
    last (resumeRegs c) a = last (replayMasters c ++ if c.dim then dimRegs true c else []) a := by
  have hmix := Reg.isMixer_of_isMaster ha
  -- Of the blocks of a replay only the masters write masters, and DIM after them.
  obtain ⟨hwidth, hfx, hms, hphase, hsplit, htrim⟩ := overlays_not_master c
  have hiface : last [((.iface, .alt c.alt) : Reg × Datum)] a = none :=
    Registers.last_eq_none fun h => by
      rw [List.map_singleton, List.mem_singleton] at h
      rw [h] at ha
      cases ha
  have hgain : last ((List.finRange 4).flatMap fun mic => gainRegs mic (c.gain mic).toNat) a = none :=
    Avoids.last_eq_none (.flatMap fun mic _ => gainRegs_not_master mic _) ha
  have hblock : last ((List.finRange 6).flatMap fun out => blockRegs out (c.xpoint out)) a = none :=
    Avoids.last_eq_none (.flatMap fun out _ => blockRegs_not_master out _) ha
  have hwidth' : last (if c.width ≠ 0 then widthRegs c.width else []) a = none :=
    Avoids.last_eq_none (.ite fun _ => hwidth) ha
  have hms' : last (if c.ms_proc then msRegs else []) a = none :=
    Avoids.last_eq_none (.ite fun _ => hms) ha
  have hphase' : last ((List.finRange 4).flatMap fun mic =>
      if c.phase mic then phaseRegs mic true c else []) a = none :=
    Avoids.last_eq_none (.flatMap fun mic _ => .ite fun _ => hphase mic) ha
  have hsplit' : last ((List.finRange 6).flatMap fun pb =>
      if c.split pb then splitRegs pb true c else []) a = none :=
    Avoids.last_eq_none (.flatMap fun pb _ => .ite fun _ => hsplit pb) ha
  have htrim' : last ([0, 2].flatMap fun mic =>
      if c.trim mic ≠ 0 then trimRegs mic (c.trim mic * 2) else []) a = none :=
    Avoids.last_eq_none (.flatMap fun mic _ => .ite fun _ => htrim mic _) ha
  simp only [resumeRegs, restoreRegs, flagRegs, Registers.last_append, hiface, hgain, hblock, hwidth',
    hfx.last_eq_none ha, hms', hphase', hsplit', htrim', (coldRegs_misses c).last_eq_none hmix,
    (preampRegs_misses c).last_eq_none hmix, (pitchRegs_misses c.pitch c).last_eq_none hmix,
    (rateRegs_misses clockRegs_misses c).last_eq_none hmix,
    (loopbackRegs_misses _ _).last_eq_none hmix, (linkRegs_misses _ _ c).last_eq_none hmix,
    Option.none_or, Option.or_none]
  rfl

/-- What the replay writes over the crosspoints, the lowest first, and the FX send. -/
def overlayRegs (c : Chip) : List (Reg × Datum) :=
  (if c.width ≠ 0 then widthRegs c.width else []) ++ (fxRegs c.fx_send
    ++ ((if c.ms_proc then msRegs else [])
    ++ ((List.finRange 4).flatMap (fun mic => if c.phase mic then phaseRegs mic true c else [])
    ++ ((List.finRange 6).flatMap (fun pb => if c.split pb then splitRegs pb true c else [])
    ++ [0, 2].flatMap fun mic =>
      if c.trim mic ≠ 0 then trimRegs mic (c.trim mic * 2) else []))))

/-- The crosspoints that the replay leaves are the cached ones under the overlays. -/
def replayXpoints (c : Chip) : List (Reg × Datum) :=
  (List.finRange 6).flatMap (fun out => blockRegs out (c.xpoint out)) ++ overlayRegs c

/-- The masters write no crosspoint. -/
theorem masterRegs_not_xpoint (out : Out) (l8 r8 : U8) (l16 r16 : U16) :
    Misses Reg.isXpoint (masterRegs out l8 r8 l16 r16) := by
  have h : ∀ out : Out, ∀ a ∈ (masterRegs out 0 0 0 0).map Prod.fst, a.isXpoint = false := by decide
  intro w hw
  have hm : w.1 ∈ (masterRegs out l8 r8 l16 r16).map Prod.fst := List.mem_map_of_mem hw
  rw [Bool.not_eq_true]
  exact h out w.1 hm

/-- Nor does a gain. -/
theorem gainRegs_not_xpoint (mic : Mic) (db : ℤ) : Misses Reg.isXpoint (gainRegs mic db) := by
  have h : ∀ mic : Mic, ¬ (Reg.ctl BF_REQ_GAIN (BF_REG_GAIN + mic)).isXpoint = true := by decide
  exact .cons (h mic) .nil

/-- Of what the replay of the flags writes, the overlays are the crosspoints. -/
theorem last_flagRegs_xpoint {a : Reg} (ha : a.isXpoint = true) (c : Chip) :
    last (flagRegs c) a = last (overlayRegs c) a := by
  have hmix := Reg.isMixer_of_isXpoint ha
  have hdim : last (if c.dim then dimRegs true c else []) a = none :=
    Avoids.last_eq_none (.ite fun _ => .append (masterRegs_not_xpoint _ _ _ _ _)
      ((dimFlagRegs_misses true).mono fun _ => Reg.isMixer_of_isXpoint)) ha
  simp only [flagRegs, overlayRegs, Registers.last_append, hdim,
    (loopbackRegs_misses _ _).last_eq_none hmix, (linkRegs_misses _ _ c).last_eq_none hmix,
    Option.or_none]

/-- The crosspoints of a resume are those of its replay. -/
theorem last_resumeRegs_xpoint {a : Reg} (ha : a.isXpoint = true) (c : Chip) :
    last (resumeRegs c) a = last (replayXpoints c) a := by
  have hmix := Reg.isMixer_of_isXpoint ha
  have hiface : last [((.iface, .alt c.alt) : Reg × Datum)] a = none :=
    Registers.last_eq_none fun h => by
      rw [List.map_singleton, List.mem_singleton] at h
      rw [h] at ha
      cases ha
  have hgain : last ((List.finRange 4).flatMap fun mic => gainRegs mic (c.gain mic).toNat) a = none :=
    Avoids.last_eq_none (.flatMap fun mic _ => gainRegs_not_xpoint mic _) ha
  have hmaster : last ((List.finRange 6).flatMap fun out =>
      outRegs out (c.muted out) false (c.master out 0) (c.master out 1)) a = none :=
    Avoids.last_eq_none (.flatMap fun out _ => masterRegs_not_xpoint out _ _ _ _) ha
  simp only [resumeRegs, restoreRegs, replayXpoints, Registers.last_append, hiface, hgain,
    hmaster, last_flagRegs_xpoint ha, (coldRegs_misses c).last_eq_none hmix,
    (preampRegs_misses c).last_eq_none hmix, (pitchRegs_misses c.pitch c).last_eq_none hmix,
    (rateRegs_misses clockRegs_misses c).last_eq_none hmix, Option.none_or, Option.or_none]

/-! ## A replay that got through -/

/-- What a replay leaves alone: all but the EQ strips and the place in the flag cycle. -/
structure Replayed (c d : Chip) : Prop where
  stream : d.toStream = c.toStream
  mixer : d.toMixer = c.toMixer
  panel : d.toPanel = c.toPanel

/-- What keeps the cache and the replayed registers, part by part. -/
theorem replayed_framing : Bus.Framing Replayed :=
  ⟨fun _ => ⟨rfl, rfl, rfl⟩, fun h h' => ⟨h'.stream.trans h.stream, h'.mixer.trans h.mixer,
    h'.panel.trans h.panel⟩⟩

/-- The place in the flag cycle is in neither part. -/
theorem Replayed.of_quiet {c d : Chip} (h : d.quiet = c.quiet) : Replayed c d := by
  rw [Chip.quiet_eq h]
  exact ⟨rfl, rfl, rfl⟩

/-- It does not depend on the flag count. -/
theorem replayed_respects : Bus.Respects Chip.quiet Replayed := fun _ _ _ _ hc hd h =>
  replayed_framing.trans (.of_quiet hc.symm) (replayed_framing.trans h (.of_quiet hd))

/-- A replay that returned no error has written its registers, and then EQ blocks. -/
theorem bfResumeLocked_run {w w' : World} {a : Unit} (hd : w.chip.DimSaved)
    (h : bfResumeLocked w = (.ok a, w')) :
    Replayed w.chip w'.chip ∧ ∃ vs : List (Reg × Datum), (∀ x ∈ vs, ∃ ch b, x = (.eq ch, .block b)) ∧
      w'.wire.map Xfer.write = w.wire.map Xfer.write ++ (resumeRegs w.chip.quiet ++ vs) := by
  unfold bfResumeLocked at h
  rw [Bus.M.bind_of_ok (Bus.M.get_run w)] at h
  -- Each block leaves the cache as it was, so that the next one writes the same.
  obtain ⟨_, w₁, h₁, h⟩ := Bus.M.bind_eq_ok h
  obtain ⟨_, w₂, h₂, h⟩ := Bus.M.bind_eq_ok h
  obtain ⟨_, w₃, h₃, h⟩ := Bus.M.bind_eq_ok h
  obtain ⟨_, w₄, h₄, h⟩ := Bus.M.bind_eq_ok h
  have hi : Writes (usbSetInterface w.chip.alt) fun _ => [(.iface, .alt w.chip.alt)] :=
    Bus.Sends.send _
  obtain ⟨hc₁, hw₁, -⟩ := hi.run_ok h₁
  obtain ⟨hc₂, hw₂, -⟩ := bfColdInit_restores (fun _ => True) _ _ _ trivial h₂
  obtain ⟨hc₃, hw₃, -⟩ := babyfaceRestoreState_restores (fun _ => True) _ _ _ trivial h₃
  have hq₂ : w₂.chip.quiet = w.chip.quiet := hc₂.trans hc₁
  have hq₃ : w₃.chip.quiet = w.chip.quiet := hc₃.trans hq₂
  have hd₃ : w₃.chip.quiet.DimSaved := by rw [hq₃]; exact hd
  obtain ⟨hc₄, hw₄, -⟩ := bfStateApplyFlags_restores _ _ _ hd₃ h₄
  have hq₄ : w₄.chip.quiet = w.chip.quiet := hc₄.trans hq₃
  -- The upload at the end writes blocks of the EQ only.
  have heq : Bus.Frames Xfer.write Replayed (fun x => ∃ ch b, x = (.eq ch, .block b))
      (fun _ => True) bfEqReupload :=
    bfEqReupload_frames replayed_framing replayed_respects (fun _ _ => ⟨rfl, rfl, rfl⟩)
      fun ch b => ⟨ch, b, rfl⟩
  have hstate := heq.state w₄
  obtain ⟨vs, hvs, hblocks⟩ := heq.wire w₄
  rw [h] at hstate hvs
  refine ⟨replayed_framing.trans (.of_quiet hq₄) hstate, vs, hblocks, ?_⟩
  rw [hvs, hw₄, hw₃, hw₂, hw₁, hc₁, hq₂, hq₃]
  simp only [resumeRegs, List.append_assoc]
  rfl

end BabyfacePro
