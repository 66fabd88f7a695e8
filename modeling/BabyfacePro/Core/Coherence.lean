import BabyfacePro.Core.Crosspoints
import BabyfacePro.Core.Failure
import BabyfacePro.Core.Masters

/-!
# The cache after a probe

A probe clears the crosspoints, writes the default mixer and replays the flags; it reads the preamp
byte back. What none of them touches keeps the contents of the session before: the input gains, the
DIM flag, the EQ blocks and the preamp byte. The cache describes the device (`Coherent`) exactly when
these happen to hold the defaults (`probe_coherent_iff`).
-/

namespace BabyfacePro

open Registers (last Avoids Holds)

/-! ## What the cache says of the device -/

/-- The masters of an output's side. The pair that DIM writes counts as -20 dB. -/
def MasterHolds (D : Reg → Datum) (c : Chip) (out : Out) (side : Side) : Prop :=
  (D (reg8 out side) = c.word8 out side ∧ D (reg16 out side) = c.word16 out side) ∨
    (c.muted out = false ∧ c.master out side = .ofInt 16 BF_MASTER_STEP_MINUS20 ∧
      D (reg8 out side) = .word (BF_MASTER_MINUS20_8.setWidth 16) ∧
      D (reg16 out side) = .word BF_MASTER_MINUS20_16)

/-- The preamp byte has the cached 48V and pad bits, and the bits of the cached ref level. -/
def PreampHolds (D : Reg → Datum) (c : Chip) : Prop :=
  ∃ v, D preampReg = .word v ∧ v &&& preampMask = c.preamp &&& preampMask ∧
    v &&& BF_PREAMP_REF_MASK = if c.ref_level = BF_REF_LEVEL_4DBU then BF_PREAMP_REF_4DBU else 0

/-- The registers and EQ blocks that the controls stand for hold what their cached values stand for. -/
structure Coherent (D : Reg → Datum) (c : Chip) : Prop where
  masters : ∀ out side, MasterHolds D c out side
  /-- The crosspoints, and their cross registers. -/
  xpoints : ∀ out, Holds D (blockRegs out (c.xpoint out))
  loopback : Holds D (loopbackMap c)
  preamp : PreampHolds D c
  /-- Link and AN 1>2 share a register. -/
  link : D (.ctl BF_REQ_PREAMP 0x1000) = .word (linkWord c.linked c.an12)
  dim : Holds D (dimFlagRegs c.dim)
  fx : Holds D (fxRegs c.fx_send)
  gains : ∀ mic, Holds D (gainRegs mic (c.gain mic).toNat)
  eq : ∀ strip, Holds D (eqRegs strip ((c.eq strip).recompute c.eqFs))

/-! ## What a probe leaves alone -/

/-- The registers that no transfer of a probe names. -/
def Reg.isKept : Reg → Bool
  | .ctl req idx => (req = BF_REQ_GAIN && decide (idx < BF_REG_MASTER_8)) ||
      (req = BF_REQ_PREAMP && (idx = BF_REG_PREAMP || idx = 0x2000))
  | .eq _ => true
  | .iface => false

/-- The registers of the cold init's clear. -/
def Reg.isClear : Reg → Bool
  | .ctl req _ => req = BF_REQ_REG_CLEAR
  | _ => false

/-- A word of any other request is none that the probe keeps. -/
theorem word_not_kept {req : ℕ} (idx : ℕ) (v : U16) (h : req ≠ BF_REQ_GAIN ∧ req ≠ BF_REQ_PREAMP) :
    ¬ (word req idx v).1.isKept = true := by
  simp [word, Reg.isKept, h.1, h.2]

/-- The settings word is not kept. -/
theorem settingsRegs_not_kept (c : Chip) : Misses Reg.isKept (settingsRegs c) :=
  .cons (word_not_kept _ _ (by decide)) .nil

/-- Nor what the init writes. -/
theorem initRegs_not_kept (r : BfRate) (c : Chip) : Misses Reg.isKept (initRegs r c) := by
  have h : ∀ n idx v, Misses Reg.isKept (List.replicate n (word BF_REQ_KEEPALIVE idx v)) :=
    fun n idx v w hw => by
      rw [List.eq_of_mem_replicate hw]
      exact word_not_kept _ _ (by decide)
  have hpreamp : ¬ (word BF_REQ_PREAMP 0x0000 0x000c).1.isKept = true := by decide
  exact .append (.append (.cons (word_not_kept _ _ (by decide)) <| .cons hpreamp <|
    .cons (word_not_kept _ _ (by decide)) .nil) (h _ _ _)) (h _ _ _)

/-- Nor what the cold init writes. -/
theorem coldRegs_not_kept (c : Chip) : Misses Reg.isKept (coldRegs c) := by
  have hpitch : Misses Reg.isKept (pitchRegs c.pitch c) :=
    .append (.map fun _ _ => word_not_kept _ _ (by decide)) (settingsRegs_not_kept c)
  exact .append (.map fun _ _ => word_not_kept _ _ (by decide)) <| .append hpitch <|
    .append (.cons (word_not_kept _ _ (by decide)) .nil) <| rateRegs_misses initRegs_not_kept c

/-- Nor the crosspoints of an output. -/
theorem blockRegs_not_kept (out : Out) (xpoint : Src → Side → U16) :
    Misses Reg.isKept (blockRegs out xpoint) := by
  have hx : ∀ idx v, ¬ (xreg idx v).1.isKept = true := fun idx v => word_not_kept idx v (by decide)
  exact .append (.flatMap fun src _ => .cons (hx _ _) (.cons (hx _ _) .nil))
    (.append (.map fun _ _ => hx _ _) (.map fun _ _ => hx _ _))

/-- Nor its masters. -/
theorem masterRegs_not_kept (out : Out) (l8 r8 : U8) (l16 r16 : U16) :
    Misses Reg.isKept (masterRegs out l8 r8 l16 r16) := by
  have h : ∀ out : Out, ∀ a ∈ (masterRegs out 0 0 0 0).map Prod.fst, a.isKept = false := by decide
  intro w hw
  have hm : w.1 ∈ (masterRegs out l8 r8 l16 r16).map Prod.fst := List.mem_map_of_mem hw
  rw [Bool.not_eq_true]
  exact h out w.1 hm

/-- Nor the default mixer. -/
theorem defaultMixerRegs_not_kept (c : Chip) : Misses Reg.isKept (defaultMixerRegs c) :=
  .append (.flatMap fun out _ => masterRegs_not_kept out _ _ _ _) <|
    .append (.flatMap fun out _ => blockRegs_not_kept out _) (settingsRegs_not_kept _)

/-- The flags of a new cache: no loopback, no link, no overlay, and the FX send at zero. -/
theorem probe_flagRegs (st : Option U8) (p : Params) : flagRegs (probedMixer st p) =
    loopbackRegs (-1) false ++ (linkRegs false false (probedMixer st p) ++ fxRegs 0) := by
  cases st <;> rfl

/-- Nor the flags of a mixer that has just been probed. -/
theorem probe_flagRegs_not_kept (st : Option U8) (p : Params) :
    Misses Reg.isKept (flagRegs (probedMixer st p)) := by
  rw [probe_flagRegs]
  have hlink : ¬ (word BF_REQ_PREAMP 0x1000 (linkWord false false)).1.isKept = true := by decide
  have hx : ∀ idx v, ¬ (xreg idx v).1.isKept = true := fun idx v => word_not_kept idx v (by decide)
  exact .append (.map fun _ _ => word_not_kept _ _ (by decide)) <|
    .append (.cons hlink (.cons (word_not_kept _ _ (by decide)) .nil)) (.cons (hx _ _) (.cons (hx _ _) .nil))

/-- A probe writes no register that it keeps. -/
theorem probeRegs_not_kept (st : Option U8) (p : Params) : Misses Reg.isKept (probeRegs st p) :=
  .append (.cons Bool.false_ne_true .nil) <| .append (coldRegs_not_kept _) <|
    .append (defaultMixerRegs_not_kept _) (probe_flagRegs_not_kept st p)

/-! ## What the device holds -/

/-- A register has the word that was last written to it, or what it held. -/
theorem contents_eq (d : Reg → Datum) (wire : List Xfer) (a : Reg) :
    contents d wire a = (last ((wire.map Xfer.write).map effect) a).getD (d a) := by
  unfold contents
  rw [Registers.apply_eq_getD, List.map_map]
  rfl

/-- A kept register holds what it held before. -/
theorem contents_kept {d : Reg → Datum} {wire : List Xfer} {a : Reg} (ha : a.isKept = true)
    (h : Misses Reg.isKept (wire.map Xfer.write)) : contents d wire a = d a := by
  have heff : Misses Reg.isKept ((wire.map Xfer.write).map effect) := by
    intro x hx
    obtain ⟨w, hw, rfl⟩ := List.mem_map.mp hx
    -- A clear names a crosspoint, which is not kept.
    unfold effect
    split
    · split
      · simp [Reg.isKept, BF_REQ_CROSSPOINT, BF_REQ_GAIN, BF_REQ_PREAMP]
      · exact h w hw
    · exact h w hw
  rw [contents_eq, heff.last_eq_none ha, Option.getD_none]

/-- Writes without a clear take effect as they are. -/
theorem map_effect {ws : List (Reg × Datum)} (h : Misses Reg.isClear ws) : ws.map effect = ws := by
  refine List.map_congr_left (g := id) (fun w hw => ?_) |>.trans (List.map_id ws)
  have hclear := h w hw
  unfold effect
  split
  · rename_i req idx hreg
    rw [hreg] at hclear
    rw [if_neg fun he => hclear (decide_eq_true he)]
    rfl
  · rfl

/-- The writes after the readback decide where they name a register. -/
theorem contents_tail {d : Reg → Datum} {wire : List Xfer} {ws vs : List (Reg × Datum)} {a : Reg}
    {v : Datum} (hw : wire.map Xfer.write = ws ++ vs) (hc : Misses Reg.isClear vs)
    (h : last vs a = some v) : contents d wire a = v := by
  rw [contents_eq, hw, List.map_append, map_effect hc, Registers.last_append, h, Option.some_or,
    Option.getD_some]

/-- A word of any other request clears nothing. -/
theorem word_not_clear {req : ℕ} (idx : ℕ) (v : U16) (h : req ≠ BF_REQ_REG_CLEAR) :
    ¬ (word req idx v).1.isClear = true := by
  simp [word, Reg.isClear, h]

/-- The default mixer and the flags of a probe. -/
def probeTailRegs (st : Option U8) (p : Params) : List (Reg × Datum) :=
  defaultMixerRegs (readChip st p) ++ flagRegs (probedMixer st p)

/-- After the mixer's clear the probe clears nothing. -/
theorem probeTailRegs_not_clear (st : Option U8) (p : Params) :
    Misses Reg.isClear (probeTailRegs st p) := by
  have hx : ∀ idx v, ¬ (xreg idx v).1.isClear = true := fun idx v => word_not_clear idx v (by decide)
  have hmaster : ∀ out l8 r8 l16 r16, Misses Reg.isClear (masterRegs out l8 r8 l16 r16) :=
    fun out l8 r8 l16 r16 => .cons (word_not_clear _ _ (by decide)) <|
      .cons (word_not_clear _ _ (by decide)) <| .cons (hx _ _) <| .cons (hx _ _) .nil
  have hblock : ∀ out xpoint, Misses Reg.isClear (blockRegs out xpoint) := fun out xpoint =>
    .append (.flatMap fun src _ => .cons (hx _ _) (.cons (hx _ _) .nil))
      (.append (.map fun _ _ => hx _ _) (.map fun _ _ => hx _ _))
  have hflag : Misses Reg.isClear (flagRegs (probedMixer st p)) := by
    rw [probe_flagRegs]
    exact .append (.map fun _ _ => word_not_clear _ _ (by decide)) <|
      .append (.cons (word_not_clear _ _ (by decide)) (.cons (word_not_clear _ _ (by decide)) .nil))
        (.cons (hx _ _) (.cons (hx _ _) .nil))
  exact .append (.append (.flatMap fun out _ => hmaster out _ _ _ _) <|
    .append (.flatMap fun out _ => hblock out _) (.cons (word_not_clear _ _ (by decide)) .nil)) hflag

/-! ## What the tail of a probe leaves -/

/-- The masters that a probe leaves: -20 dB on the first two outputs, 0 dB on the others. -/
theorem last_tail_master (st : Option U8) (p : Params) (out : Out) (side : Side) :
    last (probeTailRegs st p) (reg8 out side) =
        some (.word ((if out.val < 2 then BF_MASTER_MINUS20_8 else BF_MASTER_UNMUTE).setWidth 16)) ∧
      last (probeTailRegs st p) (reg16 out side) =
        some (.word (if out.val < 2 then BF_MASTER_MINUS20_16 else BF_MASTER_0DB)) := by
  -- Of what the probe sends at its end only the loop over the outputs writes masters.
  have htail : ∀ {a : Reg}, a.isMaster = true → last (probeTailRegs st p) a =
      last ((List.finRange 6).flatMap defaultMasterRegs) a := fun {a} ha => by
    have hmix := Reg.isMixer_of_isMaster ha
    have hblock : last ((List.finRange 6).flatMap fun out => blockRegs out fun src _ => defaultLevel src) a =
        none := Avoids.last_eq_none (.flatMap fun out _ => blockRegs_not_master out _) ha
    have hfx : Misses Reg.isMaster (fxRegs 0) :=
      .cons (xreg_not_master _ (by decide)) (.cons (xreg_not_master _ (by decide)) .nil)
    simp only [probeTailRegs, defaultMixerRegs, probe_flagRegs, Registers.last_append, hblock,
      (settingsRegs_misses _).last_eq_none hmix, (loopbackRegs_misses _ _).last_eq_none hmix,
      (linkRegs_misses _ _ _).last_eq_none hmix, hfx.last_eq_none ha, Option.none_or]
  -- No register occurs twice in that loop, so each holds the word that it names.
  have hn : (((List.finRange 6).flatMap defaultMasterRegs).map Prod.fst).Nodup := by decide
  have hmem : ∀ out side, (reg8 out side,
      Datum.word ((if out.val < 2 then BF_MASTER_MINUS20_8 else BF_MASTER_UNMUTE).setWidth 16)) ∈
        (List.finRange 6).flatMap defaultMasterRegs ∧
      (reg16 out side, Datum.word (if out.val < 2 then BF_MASTER_MINUS20_16 else BF_MASTER_0DB)) ∈
        (List.finRange 6).flatMap defaultMasterRegs := by decide
  obtain ⟨h8, h16⟩ := hmem out side
  rw [htail (reg8_isMaster out side), htail (reg16_isMaster out side)]
  exact ⟨Registers.last_of_mem hn h8, Registers.last_of_mem hn h16⟩

/-- No crosspoint is a master. -/
theorem last_defaultMasters {a : Reg} (ha : a.isXpoint = true) :
    last ((List.finRange 6).flatMap defaultMasterRegs) a = none :=
  Avoids.last_eq_none (.flatMap fun out _ => masterRegs_not_xpoint out _ _ _ _) ha

/-- The crosspoints that a probe leaves are those of the default mixer, and the FX send. -/
theorem last_tail_xpoint (st : Option U8) (p : Params) {a : Reg} (ha : a.isXpoint = true) :
    last (probeTailRegs st p) a = (last (fxRegs 0) a).or
      (last ((List.finRange 6).flatMap fun out => blockRegs out fun src _ => defaultLevel src) a) := by
  have hmix := Reg.isMixer_of_isXpoint ha
  simp only [probeTailRegs, defaultMixerRegs, probe_flagRegs, Registers.last_append,
    last_defaultMasters ha, (settingsRegs_misses _).last_eq_none hmix,
    (loopbackRegs_misses _ _).last_eq_none hmix, (linkRegs_misses _ _ _).last_eq_none hmix,
    Option.none_or, Option.or_none]

/-- What clears the crosspoints across a pair writes crosspoints that no control shows. -/
theorem cross_isXpoint (out : Out) {w : Reg × Datum} (h : w ∈ crossRegs out) :
    w.1.isXpoint = true ∧ w.2 = .word 0 ∧ NoPoint w.1 ∧ ∀ side, w.1 ≠ fxReg side := by
  have hcross : ∀ out : Out, (∀ k ∈ crossL, ∀ side, BF_REG_XPOINT_BASE_L + BF_REG_XPOINT_STRIDE * out + k ≤
        0x0137 ∧ 0x0137 < (if side = (0 : Side) then 0x0138 else 0x0153)) ∧
      ∀ k ∈ crossR, ∀ side, BF_REG_XPOINT_BASE_R + BF_REG_XPOINT_STRIDE * out + k ≤ 0x0137 ∧
        0x0137 < (if side = (0 : Side) then 0x0138 else 0x0153) := by decide
  -- The crosspoints across a pair lie between those of the controls and the FX send.
  have hpoint : NoPoint w.1 := fun o s d he => crossRegs_avoids out o s d w h he
  have hidx : ∃ idx, w = xreg idx 0 ∧ ∀ side, idx ≤ 0x0137 ∧
      0x0137 < (if side = (0 : Side) then 0x0138 else 0x0153) := by
    rcases List.mem_append.mp h with h | h
    · obtain ⟨k, hk, rfl⟩ := List.mem_map.mp h
      exact ⟨_, rfl, (hcross out).1 k hk⟩
    · obtain ⟨k, hk, rfl⟩ := List.mem_map.mp h
      exact ⟨_, rfl, (hcross out).2 k hk⟩
  obtain ⟨idx, rfl, hlt⟩ := hidx
  refine ⟨?_, rfl, hpoint, fun side he => ?_⟩
  · have hle : idx ≤ 0x0153 := (hlt 0).1.trans (by decide)
    simp [xreg, word, Reg.isXpoint, hle]
  · have heq : idx = if side = (0 : Side) then 0x0138 else 0x0153 := (Reg.ctl.inj he).2
    have := hlt side
    omega

/-- Every register of a block holds the block's word. -/
theorem last_tail_block (st : Option U8) (p : Params) (out : Out) :
    ∀ w ∈ blockRegs out (fun src _ => defaultLevel src), last (probeTailRegs st p) w.1 = some w.2 := by
  intro w hw
  -- A word of the block is a control's own crosspoint, or one across a pair.
  rcases List.mem_append.mp hw with hx | hx
  · obtain ⟨src, -, hx⟩ := List.mem_flatMap.mp hx
    obtain ⟨side, rfl⟩ : ∃ side, w = (pointReg out src side, .word (defaultLevel src)) := by
      simp only [xpointRegs, List.mem_cons, List.not_mem_nil, or_false] at hx
      obtain rfl | rfl := hx
      · exact ⟨0, rfl⟩
      · exact ⟨1, rfl⟩
    rw [last_tail_xpoint st p (pointReg_isXpoint _ _ _), last_fxRegs_point, Option.none_or,
      last_blocks_point out src side fun _ src _ => defaultLevel src]
  · obtain ⟨hxp, hzero, hpoint, hfx⟩ := cross_isXpoint out hx
    have hmem : w.1 ∈ ((List.finRange 6).flatMap crossRegs).map Prod.fst :=
      List.mem_map_of_mem (List.mem_flatMap.mpr ⟨out, List.mem_finRange out, hx⟩)
    rw [last_tail_xpoint st p hxp, last_fxRegs_of_ne 0 hfx, Option.none_or, last_blocks_off hpoint fun _ src _ =>
      defaultLevel src, hzero]
    -- Wherever it is written again, the same zero is written.
    refine Registers.last_eq_some hmem fun v hv _ => ?_
    obtain ⟨o, -, ho⟩ := List.mem_flatMap.mp hv
    exact (cross_isXpoint o ho).2.1

/-- The FX send that a probe leaves is off. -/
theorem last_tail_fx (st : Option U8) (p : Params) :
    ∀ w ∈ fxRegs 0, last (probeTailRegs st p) w.1 = some w.2 := by
  intro w hw
  have hn : ((fxRegs 0).map Prod.fst).Nodup := by decide
  have hx : ∀ w ∈ fxRegs 0, w.1.isXpoint = true := by decide
  have hlast : last (fxRegs 0) w.1 = some w.2 := Registers.last_of_mem hn hw
  rw [last_tail_xpoint st p (hx w hw), hlast, Option.some_or]

/-- The loopback map and the link register, which only the flags write. -/
theorem last_tail_flags (st : Option U8) (p : Params) :
    (∀ w ∈ loopbackRegs (-1) false, last (probeTailRegs st p) w.1 = some w.2) ∧
      last (probeTailRegs st p) (.ctl BF_REQ_PREAMP 0x1000) = some (.word (linkWord false false)) := by
  have htail : ∀ {a : Reg} {v : Datum}, last (flagRegs (probedMixer st p)) a = some v →
      last (probeTailRegs st p) a = some v := fun h => by
    rw [probeTailRegs, Registers.last_append, h, Option.some_or]
  have hn : ((loopbackRegs (-1) false).map Prod.fst).Nodup := by decide
  refine ⟨fun w hw => htail ?_, htail ?_⟩
  -- The map has one entry for each channel, and neither the link nor the FX send is one.
  · have hloop : last (loopbackRegs (-1) false) w.1 = some w.2 := Registers.last_of_mem hn hw
    have hothers : ∀ x ∈ loopbackRegs (-1) false, x.1 ∉
        (linkRegs false false (probedMixer st p) ++ fxRegs 0).map Prod.fst := by
      intro x hx
      obtain ⟨ch, -, rfl⟩ := List.mem_map.mp hx
      simp [linkRegs, commitRegs, fxRegs, xreg, word, BF_REQ_LOOPBACK, BF_REQ_PREAMP,
        BF_REQ_PREAMP_COMMIT, BF_REQ_CROSSPOINT]
    rw [probe_flagRegs, Registers.last_append, Registers.last_eq_none (hothers w hw), Option.none_or,
      hloop]
  · have hlink : linkRegs false false (probedMixer st p) ++ fxRegs 0 =
        [word BF_REQ_PREAMP 0x1000 (linkWord false false)] ++
          (commitRegs (probedMixer st p) ++ fxRegs 0) := rfl
    have hrest : last (commitRegs (probedMixer st p) ++ fxRegs 0) (.ctl BF_REQ_PREAMP 0x1000) = none :=
      Registers.last_eq_none (by
        simp [commitRegs, fxRegs, xreg, word, BF_REQ_PREAMP, BF_REQ_PREAMP_COMMIT, BF_REQ_CROSSPOINT])
    rw [probe_flagRegs, Registers.last_append, hlink, Registers.last_append, hrest, Option.none_or,
      word, Registers.last_singleton, if_pos rfl, Option.some_or]

/-! ## The cache after a probe -/

/-- The block of a strip that is off. -/
def flatBlock (ch : U8) : List U8 := bfEqBuildBlock ch 0 (fun _ _ => 0) BF_EQ_Q27 BF_EQ_LC_OFF

/-- The block of a channel whose EQ is off is the flat one. -/
theorem block_off {e : EqChannel} (h : e.on = false) (fs : ℤ) (ch : U8) :
    (e.recompute fs).block ch = flatBlock ch := by
  have hon : (e.recompute fs).on = false := h
  simp [EqChannel.block, hon, flatBlock]

/-- What a probe leaves alone held the defaults before. The preamp byte is read back: when that got
through the byte's ref bits have to be a level's, else the byte has to be the driver's. -/
structure KeptDefaults (d : Reg → Datum) (st : Option U8) : Prop where
  gains : ∀ mic : Mic, d (.ctl BF_REQ_GAIN (BF_REG_GAIN + mic)) = .word 0
  dim : d (.ctl BF_REQ_PREAMP 0x2000) = .word 0
  eq : ∀ strip side, d (.eq (eqCh strip side)) = .block (flatBlock (eqCh strip side))
  preamp : ∃ v, d preampReg = .word v ∧
    if st.isSome then v &&& BF_PREAMP_REF_MASK = BF_PREAMP_REF_4DBU ∨ v &&& BF_PREAMP_REF_MASK = 0
    else v &&& preampMask = BF_PREAMP_BASE

section Probed

variable {d D : Reg → Datum} {c : Chip} {st : Option U8} {reprobe : Bool} {jiffies : ℤ} {p : Params}

/-- The masters of a new cache are those of the default mixer. -/
theorem probed_masters (hc : c.quiet = probedChip st reprobe jiffies p)
    (hD : ∀ a v, last (probeTailRegs st p) a = some v → D a = v) (out : Out) (side : Side) :
    MasterHolds D c out side := by
  -- The masters of the cache are those of the default mixer.
  have hq : c.quiet = (probedChip st reprobe jiffies p).quiet := by rw [← hc, Chip.quiet_quiet]
  rw [Chip.quiet_eq hq]
  obtain ⟨h8, h16⟩ := last_tail_master st p out side
  obtain ⟨hmaster, hmute⟩ := cacheDefaultMixer_masters (readChip st p) out
  have hstep : (cacheDefaultMixer (readChip st p)).master out side = defaultStep out := by
    rw [hmaster]
    obtain rfl | rfl := left_or_right side <;> rfl
  -- The first two outputs start at -20 dB, and their masters hold the firmware's own words for it.
  by_cases ho : out.val < 2
  · rw [if_pos ho] at h8 h16
    have hdefault : defaultStep out = .ofInt 16 BF_MASTER_STEP_MINUS20 := by rw [defaultStep, if_pos ho]
    exact .inr ⟨hmute, hstep.trans hdefault, hD _ _ h8, hD _ _ h16⟩
  -- The others start at 0 dB, neither muted nor dimmed.
  · rw [if_neg ho] at h8 h16
    have hne : out ≠ 1 := fun he => ho (by rw [he]; decide)
    have hwords : ∀ dim, bfOutReg8 false dim (.ofInt 16 BF_MASTER_STEP_0DB) = BF_MASTER_UNMUTE ∧
        bfOutReg16 false dim (.ofInt 16 BF_MASTER_STEP_0DB) = BF_MASTER_0DB ∨ dim = true := by decide
    have hdefault : defaultStep out = .ofInt 16 BF_MASTER_STEP_0DB := by rw [defaultStep, if_neg ho]
    have hoff : (out = 1 && (cacheDefaultMixer (readChip st p)).dim) = false := by
      rw [decide_eq_false hne, Bool.false_and]
    obtain ⟨hw8, hw16⟩ := (hwords false).resolve_right Bool.false_ne_true
    refine .inl ⟨(hD _ _ h8).trans ?_, (hD _ _ h16).trans ?_⟩
    · show _ = Datum.word ((bfOutReg8 ((cacheDefaultMixer (readChip st p)).muted out)
        (out = 1 && (cacheDefaultMixer (readChip st p)).dim)
        ((cacheDefaultMixer (readChip st p)).master out side)).setWidth 16)
      rw [hmute, hoff, hstep, hdefault, hw8]
    · show _ = Datum.word (bfOutReg16 ((cacheDefaultMixer (readChip st p)).muted out)
        (out = 1 && (cacheDefaultMixer (readChip st p)).dim)
        ((cacheDefaultMixer (readChip st p)).master out side))
      rw [hmute, hoff, hstep, hdefault, hw16]

/-- The preamp byte agrees with the cache when what the readback saw is a level. -/
theorem probed_preamp (hc : c.quiet = probedChip st reprobe jiffies p)
    (hst : ∀ st0, st = some st0 → ∀ v, D preampReg = .word v →
      st0.setWidth 16 &&& preampMask = v &&& preampMask) :
    PreampHolds D c ↔ ∃ v, D preampReg = .word v ∧
      if st.isSome then v &&& BF_PREAMP_REF_MASK = BF_PREAMP_REF_4DBU ∨ v &&& BF_PREAMP_REF_MASK = 0
      else v &&& preampMask = BF_PREAMP_BASE := by
  have hq : c.quiet = (probedChip st reprobe jiffies p).quiet := by rw [← hc, Chip.quiet_quiet]
  rw [Chip.quiet_eq hq]
  refine exists_congr fun v => and_congr_right fun hv => ?_
  have hmask : preampMask &&& BF_PREAMP_REF_MASK = BF_PREAMP_REF_MASK := by decide
  have href : v &&& BF_PREAMP_REF_MASK = v &&& preampMask &&& BF_PREAMP_REF_MASK := by
    rw [BitVec.and_assoc, hmask]
  -- With a byte read the masked byte is cached, and the level is told by its bits.
  cases st with
  | some st0 =>
    have hbyte := hst st0 rfl v hv
    show v &&& preampMask = (st0.setWidth 16 &&& preampMask) &&& preampMask ∧ v &&& BF_PREAMP_REF_MASK =
      (if (if (st0.setWidth 16 &&& preampMask) &&& BF_PREAMP_REF_MASK = BF_PREAMP_REF_4DBU then
        BF_REF_LEVEL_4DBU else BF_REF_LEVEL_MINUS10DBV) = BF_REF_LEVEL_4DBU then BF_PREAMP_REF_4DBU
        else 0) ↔ _
    rw [hbyte, BitVec.and_assoc, BitVec.and_self, ← href]
    have hlevel : BF_REF_LEVEL_MINUS10DBV ≠ BF_REF_LEVEL_4DBU := by decide
    by_cases h4 : v &&& BF_PREAMP_REF_MASK = BF_PREAMP_REF_4DBU
    · simp [h4]
    · simp [h4, hlevel]
  -- Without one the driver assumes its base, which the device may not hold.
  | none =>
    have hbase : BF_PREAMP_BASE &&& preampMask = BF_PREAMP_BASE := by decide
    have hbase4 : BF_PREAMP_BASE &&& BF_PREAMP_REF_MASK = BF_PREAMP_REF_4DBU := by decide
    show v &&& preampMask = BF_PREAMP_BASE &&& preampMask ∧ v &&& BF_PREAMP_REF_MASK =
      BF_PREAMP_REF_4DBU ↔ v &&& preampMask = BF_PREAMP_BASE
    rw [hbase]
    exact ⟨fun h => h.1, fun h => ⟨h, by rw [href, h, hbase4]⟩⟩

/-- What else the claims of a new cache are: everything off. -/
theorem probed_fields (hc : c.quiet = probedChip st reprobe jiffies p) :
    (c.xpoint = fun _ src _ => defaultLevel src) ∧ (c.loopback = fun _ => false) ∧
      c.linked = false ∧ c.an12 = false ∧ c.dim = false ∧ c.fx_send = 0 ∧ (c.gain = fun _ => 0) ∧
      ∀ strip, (c.eq strip).on = false := by
  have hq : c.quiet = (probedChip st reprobe jiffies p).quiet := by rw [← hc, Chip.quiet_quiet]
  rw [Chip.quiet_eq hq]
  cases st <;> exact ⟨rfl, rfl, rfl, rfl, rfl, rfl, rfl, fun _ => rfl⟩

/-- After a probe the device is what the cache says if and only if what is kept was at its defaults. -/
theorem probed_coherent_iff (hc : c.quiet = probedChip st reprobe jiffies p)
    (hD : ∀ a v, last (probeTailRegs st p) a = some v → D a = v)
    (hkept : ∀ a, Reg.isKept a = true → D a = d a)
    (hst : ∀ st0, st = some st0 → ∀ v, d preampReg = .word v →
      st0.setWidth 16 &&& preampMask = v &&& preampMask) :
    Coherent D c ↔ KeptDefaults d st := by
  -- The probe writes the crosspoints, the loopbacks, the flags and the FX send.
  obtain ⟨hxpoint, hloops, hlinked, han12, hdimmed, hsend, hgains, hoff⟩ := probed_fields hc
  have hpreamp : D preampReg = d preampReg := hkept _ (by decide)
  have hbyte := probed_preamp (D := D) hc fun st0 he v hv => hst st0 he v (hpreamp ▸ hv)
  rw [hpreamp] at hbyte
  obtain ⟨hloop, hlink⟩ := last_tail_flags st p
  have hgain : ∀ mic : Mic, D (.ctl BF_REQ_GAIN (BF_REG_GAIN + mic)) =
      d (.ctl BF_REQ_GAIN (BF_REG_GAIN + mic)) := fun mic => hkept _ (by revert mic; decide)
  have hdim : D (.ctl BF_REQ_PREAMP 0x2000) = d (.ctl BF_REQ_PREAMP 0x2000) := hkept _ (by decide)
  have heq : ∀ ch, D (.eq ch) = d (.eq ch) := fun ch => hkept _ rfl
  -- The images of the values that the probe does not write.
  have himage : ∀ mic, gainRegs mic (c.gain mic).toNat =
      [(.ctl BF_REQ_GAIN (BF_REG_GAIN + mic), .word 0)] := by
    rw [hgains]
    decide
  have hflag : dimFlagRegs c.dim = [(.ctl BF_REQ_PREAMP 0x2000, .word 0)] := by
    rw [hdimmed]
    rfl
  have hblock : ∀ strip ch, ((c.eq strip).recompute c.eqFs).block ch = flatBlock ch := fun strip ch =>
    block_off (hoff strip) _ ch
  -- Each of the four parts that it leaves alone must be at its default.
  constructor
  · intro h
    refine ⟨fun mic => ?_, ?_, fun strip side => ?_, hbyte.mp h.preamp⟩
    · have hg := h.gains mic
      rw [himage, Registers.holds_cons] at hg
      exact (hgain mic).symm.trans hg.1
    · have hd := h.dim
      rw [hflag, Registers.holds_cons] at hd
      exact hdim.symm.trans hd.1
    · have he := h.eq strip _ (List.mem_map.mpr ⟨side, List.mem_finRange side, rfl⟩)
      rw [← heq]
      exact he.trans (congrArg Datum.block (hblock strip _))
  -- What the probe writes holds whatever was there before.
  · intro h
    refine ⟨probed_masters hc hD, fun out => ?_, ?_, hbyte.mpr h.preamp, ?_, ?_, ?_, fun mic => ?_,
      fun strip w hw => ?_⟩
    · rw [hxpoint]
      exact fun w hw => hD _ _ (last_tail_block st p out w hw)
    · -- No output is on, so the map of the switches is the one that the flags write.
      have hmap : loopbackMap c = loopbackRegs (-1) false := by
        simp [loopbackMap, loopbackRegs, hloops]
      rw [hmap]
      exact fun w hw => hD _ _ (hloop w hw)
    · rw [hlinked, han12]
      exact hD _ _ hlink
    · rw [hflag, Registers.holds_cons]
      exact ⟨hdim.trans h.dim, Registers.holds_nil D⟩
    · rw [hsend]
      exact fun w hw => hD _ _ (last_tail_fx st p w hw)
    · rw [himage, Registers.holds_cons]
      exact ⟨(hgain mic).trans (h.gains mic), Registers.holds_nil D⟩
    · obtain ⟨side, -, rfl⟩ := List.mem_map.mp hw
      exact (heq _).trans ((h.eq strip side).trans (congrArg Datum.block (hblock strip _).symm))

end Probed

/-- The device after a probe holds what the cache says when what the probe leaves alone held the
defaults. -/
theorem probe_coherent {st0 : U8} {reprobe : Bool} {jiffies : ℤ} {p : Params} {usb : ℕ → Bool}
    {w : World} {d : Reg → Datum}
    (hrun : babyfaceProbe st0 reprobe jiffies ⟨probeChip p, [], [], usb⟩ = (.ok (), w))
    (hread : ∀ v, d preampReg = .word v → st0.setWidth 16 &&& preampMask = v &&& preampMask) :
    Coherent (contents d w.wire) w.chip ↔ KeptDefaults d (preampRead st0 p usb) := by
  obtain ⟨hc, hw⟩ := babyfaceProbe_run_of hrun
  -- The byte that the probe read is the one that the device held.
  have hst : ∀ st1, preampRead st0 p usb = some st1 → ∀ v, d preampReg = .word v →
      st1.setWidth 16 &&& preampMask = v &&& preampMask := by
    intro st1 he v hv
    unfold preampRead at he
    split at he
    · obtain rfl := Option.some.inj he
      exact hread v hv
    · cases he
  have htail : w.wire.map Xfer.write = ([(.iface, .alt BF_ALT_1)] ++ coldRegs (probeChip p)) ++
      probeTailRegs (preampRead st0 p usb) p := by
    rw [hw, probeRegs, List.append_assoc]
    rfl
  -- What the tail writes stands, and the clearing before it spares what is kept.
  refine probed_coherent_iff hc (fun a v hv => ?_) (fun a ha => ?_) hst
  · exact contents_tail htail (probeTailRegs_not_clear _ p) hv
  · exact contents_kept ha (hw ▸ probeRegs_not_kept _ p)

/-- Whatever the device held before, and whether the preamp readback got through or not, the cache
describes the device after a probe exactly when what the probe leaves alone held the defaults; and a
put of a value that is cached already, which is skipped, leaves it at that. -/
theorem probe_coherent_iff {st0 : U8} {reprobe : Bool} {jiffies : ℤ} {p : Params} {usb : ℕ → Bool}
    {w : World} {d : Reg → Datum}
    (hrun : babyfaceProbe st0 reprobe jiffies ⟨probeChip p, [], [], usb⟩ = (.ok (), w))
    (hread : ∀ v, d preampReg = .word v → st0.setWidth 16 &&& preampMask = v &&& preampMask) :
    (Coherent (contents d w.wire) w.chip ↔ KeptDefaults d (preampRead st0 p usb)) ∧
      ∀ k x ctl s, ctl.setting x = some s → s.cached w.chip = true →
        (Coherent (contents d (bfPut k x ctl w).2.wire) (bfPut k x ctl w).2.chip ↔
          KeptDefaults d (preampRead st0 p usb)) := by
  have hprobe := probe_coherent hrun hread
  refine ⟨hprobe, fun k x ctl s hs hcached => ?_⟩
  have hsame : s.cached w.chip.quiet = true := (s.cached_quiet _).trans hcached
  have hskip : bfPut k x ctl w = (.ok 0, w) := (bfPut_handles k hs).unchanged w hsame
  rw [hskip]
  exact hprobe

/-- A device that holds the defaults. -/
def defaultDevice : Reg → Datum
  | .ctl req idx => .word (if req = BF_REQ_PREAMP ∧ idx = BF_REG_PREAMP then BF_PREAMP_BASE else 0)
  | .eq ch => .block (flatBlock ch)
  | .iface => .alt 0

/-- A device at its defaults keeps nothing else. -/
theorem defaultDevice_kept (st : Option U8) : KeptDefaults defaultDevice st where
  gains := by decide
  dim := rfl
  eq _ _ := rfl
  preamp := by
    refine ⟨BF_PREAMP_BASE, rfl, ?_⟩
    cases st with
    | none => decide
    | some _ => exact .inl (by decide)

/-- The card after its probe. -/
def defaultCard : World := (babyfaceProbe 0x0c false 0 ⟨probeChip {}, [], [], fun _ => true⟩).2

/-- A probe that reads the preamp of such a device. -/
theorem defaultCard_run :
    babyfaceProbe 0x0c false 0 ⟨probeChip {}, [], [], fun _ => true⟩ = (.ok (), defaultCard) := by
  obtain ⟨_, hrun⟩ := eq_of_isOk (x := babyfaceProbe 0x0c false 0 ⟨probeChip {}, [], [], fun _ => true⟩)
    (by decide +kernel)
  exact hrun

/-- The device and the cache agree after it. -/
theorem probe_coherent_iff_default : Coherent (contents defaultDevice defaultCard.wire) defaultCard.chip := by
  have hread : ∀ v, defaultDevice preampReg = .word v →
      (0x0c : U8).setWidth 16 &&& preampMask = v &&& preampMask := by
    rintro v ⟨⟩
    decide
  have hkept : KeptDefaults defaultDevice (preampRead 0x0c {} fun _ => true) :=
    defaultDevice_kept _
  exact (probe_coherent_iff defaultCard_run hread).1.mpr hkept

/-- A device whose AN1 gain is at 15 dB since an earlier session. -/
def usedDevice : Reg → Datum :=
  Function.update defaultDevice (.ctl BF_REQ_GAIN BF_REG_GAIN) (.word 0x0005)

/-- The probe leaves the gain at 15 dB, and the cache says 0 dB. -/
theorem probe_not_coherent :
    ¬ ∀ (st0 : U8) (reprobe : Bool) (jiffies : ℤ) (p : Params) (usb : ℕ → Bool) (w : World)
      (d : Reg → Datum), babyfaceProbe st0 reprobe jiffies ⟨probeChip p, [], [], usb⟩ = (.ok (), w) →
      (∀ v, d preampReg = .word v → st0.setWidth 16 &&& preampMask = v &&& preampMask) →
      Coherent (contents d w.wire) w.chip := by
  intro hall
  have hread : ∀ v, usedDevice preampReg = .word v →
      (0x0c : U8).setWidth 16 &&& preampMask = v &&& preampMask := by
    rintro v ⟨⟩
    decide
  have hcoherent := hall _ _ _ _ _ _ usedDevice defaultCard_run hread
  have hkept := (probe_coherent defaultCard_run hread).mp hcoherent
  exact absurd (hkept.gains 0) (by decide)

end BabyfacePro
