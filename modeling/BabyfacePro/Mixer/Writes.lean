import BabyfacePro.Chip
import BabyfacePro.Lib.WriteThrough
import BabyfacePro.Mixer.Laws

/-!
# The mixer's register writes

The routines that write the mixer's registers, each with the list of writes that it makes. The lists
are the images of the cached values: a put handler, the default mixer, and the replay after a resume
all write the same lists.
-/

namespace BabyfacePro

open Bus.M (get modify each)

/-! ## Masters -/

/-- The two 8-bit registers of an output, then its two 16-bit registers. -/
def masterRegs (out : Out) (l8 r8 : U8) (l16 r16 : U16) : List (Reg × Datum) :=
  [word BF_REQ_GAIN (BF_REG_MASTER_8 + 2 * out) (l8.setWidth 16),
    word BF_REQ_GAIN (BF_REG_MASTER_8 + 2 * out + 1) (r8.setWidth 16),
    xreg (BF_REG_MASTER_16 + 2 * out) l16, xreg (BF_REG_MASTER_16 + 2 * out + 1) r16]

/-- The registers of an output at steps `l` and `r`. -/
def outRegs (out : Out) (muted dim : Bool) (l r : U16) : List (Reg × Datum) :=
  masterRegs out (bfOutReg8 muted dim l) (bfOutReg8 muted dim r) (bfOutReg16 muted dim l)
    (bfOutReg16 muted dim r)

/-- The registers of an output as the cache has it. -/
def Chip.outRegs (c : Chip) (out : Out) : List (Reg × Datum) :=
  BabyfacePro.outRegs out (c.muted out) (out = 1 && c.dim) (c.master out 0) (c.master out 1)

/-- The writes of the two 8-bit registers of an output. -/
def write8 (out : Out) (l8 r8 : U8) : Usb Unit := do
  bfVendorWrite BF_REQ_GAIN (l8.setWidth 16) (BF_REG_MASTER_8 + 2 * out)
  bfVendorWrite BF_REQ_GAIN (r8.setWidth 16) (BF_REG_MASTER_8 + 2 * out + 1)

/-- The writes of the two 16-bit registers of an output, under a flag. -/
def write16 (out : Out) (l16 r16 : U16) (flag : ℕ) : Usb Unit := do
  bfVendorWrite BF_REQ_CROSSPOINT l16 (BF_REG_MASTER_16 + 2 * out ||| flag)
  bfVendorWrite BF_REQ_CROSSPOINT r16 (BF_REG_MASTER_16 + 2 * out + 1 ||| flag)

/-- The four master writes of an output at steps `l` and `r`, under one flag. -/
def writeOut (out : Out) (muted dim : Bool) (l r : U16) : Usb Unit := do
  let flag ← nextFlag
  write8 out (bfOutReg8 muted dim l) (bfOutReg8 muted dim r)
  write16 out (bfOutReg16 muted dim l) (bfOutReg16 muted dim r) flag

/-- The 8-bit masters of an output go out first. -/
theorem write8_writes (out : Out) (l8 r8 : U8) :
    Writes (write8 out l8 r8) fun _ => (masterRegs out l8 r8 0 0).take 2 :=
  (bfVendorWrite_writes _ _ (by decide)).seq
    (bfVendorWrite_writes _ _ (by decide))

/-- The 16-bit masters go out with the bits of a flag, which are no part of their indices. -/
theorem write16_writes (out : Out) (l16 r16 : U16) (i : Fin 4) :
    Writes (write16 out l16 r16 (bfFlagCycle i)) fun _ => (masterRegs out 0 0 l16 r16).drop 2 := by
  have h : 2 * out.val + 1 < 12 := by omega
  unfold write16 BF_REG_MASTER_16
  exact (bfVendorWrite_writes_flag _ (by unfold BF_INDEX_MASK; omega) i).seq
    (bfVendorWrite_writes_flag _ (by unfold BF_INDEX_MASK; omega) i)

/-- The four masters of an output, as mute and DIM have them. -/
theorem writeOut_writes (out : Out) (muted dim : Bool) (l r : U16) :
    Writes (writeOut out muted dim l r) fun _ => outRegs out muted dim l r :=
  Writes.nextFlag fun i => (write8_writes _ _ _).seq (write16_writes _ _ _ i)

/-- The four master writes of an output in the order of the default mixer and the replay, which take
the flag between the 8-bit and the 16-bit ones. -/
def writeMasters (out : Out) (l8 r8 : U8) (l16 r16 : U16) : Usb Unit := do
  write8 out l8 r8
  let flag ← nextFlag
  write16 out l16 r16 flag

/-- The four masters of an output. -/
theorem writeMasters_writes (out : Out) (l8 r8 : U8) (l16 r16 : U16) :
    Writes (writeMasters out l8 r8 l16 r16) fun _ => masterRegs out l8 r8 l16 r16 :=
  (write8_writes _ _ _).seq (Writes.nextFlag fun i => write16_writes _ _ _ i)

/-- `bf_apply_masters`. -/
def bfApplyMasters : Usb Unit :=
  each (List.finRange 6) fun out => do
    let chip ← get
    let l := if chip.muted out then 0 else chip.master out 0
    let r := if chip.muted out then 0 else chip.master out 1
    writeMasters out (bfMasterReg8 l) (bfMasterReg8 r) (bfMasterReg16 l) (bfMasterReg16 r)

/-- The replay of the masters leaves DIM to `bf_state_apply_flags`. -/
theorem bfApplyMasters_writes :
    Writes bfApplyMasters fun c => (List.finRange 6).flatMap fun out =>
      outRegs out (c.muted out) false (c.master out 0) (c.master out 1) := by
  refine Bus.Sends.each _ fun out _ => Writes.get fun c => ?_
  simp only [bfMasterReg8_muted, bfMasterReg16_muted]
  exact ⟨_, writeMasters_writes _ _ _ _ _, rfl⟩

/-! ## Crosspoints -/

/-- The left register of a crosspoint. -/
def xpointL (out : Out) (src : Src) : ℕ :=
  BF_REG_XPOINT_BASE_L + BF_REG_XPOINT_STRIDE * out + (bfSources src).idx_l

/-- The right register of a crosspoint. -/
def xpointR (out : Out) (src : Src) : ℕ :=
  BF_REG_XPOINT_BASE_R + BF_REG_XPOINT_STRIDE * out + (bfSources src).idx_r

/-- The index of a left crosspoint has room for the flag bits. -/
theorem xpointL_lt (out : Out) (src : Src) : xpointL out src < BF_INDEX_MASK := by
  revert out src; decide

/-- So has that of a right one. -/
theorem xpointR_lt (out : Out) (src : Src) : xpointR out src < BF_INDEX_MASK := by
  revert out src; decide

/-- The two registers of a crosspoint. -/
def xpointRegs (out : Out) (src : Src) (l r : U16) : List (Reg × Datum) :=
  [xreg (xpointL out src) l, xreg (xpointR out src) r]

/-- The flag of a write to an output's block: the AN1/2 block is written without. -/
def blockFlag (out : Out) : Usb ℕ := if out = 0 then pure 0 else nextFlag

/-- A write after the block's flag is chosen. -/
theorem Writes.blockFlag {f : ℕ → Usb Unit} {ws : Chip → List (Reg × Datum)} (out : Out)
    (h : ∀ i, Writes (f (bfFlagCycle i)) ws) :
    Writes (do let flag ← BabyfacePro.blockFlag out; f flag) ws := by
  unfold BabyfacePro.blockFlag
  split
  · exact h 3
  · exact Writes.nextFlag h

/-- `bf_xpoint_write`. -/
def bfXpointWrite (out : Out) (src : Src) (l r : U16) : Usb Unit := do
  let flag ← blockFlag out
  bfVendorWrite BF_REQ_CROSSPOINT l (xpointL out src ||| flag)
  bfVendorWrite BF_REQ_CROSSPOINT r (xpointR out src ||| flag)

/-- Both crosspoints of a pair. -/
theorem bfXpointWrite_writes (out : Out) (src : Src) (l r : U16) :
    Writes (bfXpointWrite out src l r) fun _ => xpointRegs out src l r :=
  Writes.blockFlag out fun i =>
    (bfVendorWrite_writes_flag _ (xpointL_lt out src) i).seq
      (bfVendorWrite_writes_flag _ (xpointR_lt out src) i)

/-- The odd left registers of a block, `BF_CROSS_L_FIRST` to `BF_CROSS_L_LAST`. -/
def crossL : List ℕ := [5, 7, 9, 11, 13, 15, 17, 19, 21, 23]

/-- The even right registers of a block, `BF_CROSS_R_FIRST` to `BF_CROSS_R_LAST`. -/
def crossR : List ℕ := [4, 6, 8, 10, 12, 14, 16, 18, 20, 22]

/-- The "cross" registers of a block, all zero. -/
def crossRegs (pair : Out) : List (Reg × Datum) :=
  crossL.map (fun k => xreg (BF_REG_XPOINT_BASE_L + BF_REG_XPOINT_STRIDE * pair + k) 0) ++
    crossR.map fun k => xreg (BF_REG_XPOINT_BASE_R + BF_REG_XPOINT_STRIDE * pair + k) 0

/-- `bf_crosspoint_clear_cross`. -/
def bfCrosspointClearCross (pair : Out) : Usb Unit := do
  each crossL fun k =>
    bfVendorWriteCycle BF_REQ_CROSSPOINT 0 (BF_REG_XPOINT_BASE_L + BF_REG_XPOINT_STRIDE * pair + k)
  each crossR fun k =>
    bfVendorWriteCycle BF_REQ_CROSSPOINT 0 (BF_REG_XPOINT_BASE_R + BF_REG_XPOINT_STRIDE * pair + k)

/-- The crosspoints across a pair. -/
theorem bfCrosspointClearCross_writes (pair : Out) :
    Writes (bfCrosspointClearCross pair) fun _ => crossRegs pair := by
  have hlt : ∀ k ∈ crossL ++ crossR, BF_REG_XPOINT_BASE_R + BF_REG_XPOINT_STRIDE * pair + k <
      BF_INDEX_MASK := by revert pair; decide
  have hl : ∀ k ∈ crossL, BF_REG_XPOINT_BASE_L + BF_REG_XPOINT_STRIDE * pair + k <
      BF_INDEX_MASK := fun k hk => by
    have := hlt k (List.mem_append_left _ hk)
    unfold BF_REG_XPOINT_BASE_R at this
    unfold BF_REG_XPOINT_BASE_L
    omega
  refine Bus.Sends.congr (Writes.seq
    (Bus.Sends.each _ fun k hk => bfVendorWriteCycle_writes 0 (hl k hk))
    (Bus.Sends.each _ fun k hk =>
      bfVendorWriteCycle_writes 0 (hlt k (List.mem_append_right _ hk)))) fun _ => ?_
  rw [crossRegs, List.map_eq_flatMap, List.map_eq_flatMap]

/-! ## Preamp -/

/-- The value of the commit: Boost is not a register bit and is sent with every commit. -/
def commitValue (ref_level : ℕ) : U16 := if ref_level = BF_REF_LEVEL_BOOST then 0x0003 else 0x0000

/-- The commit's register. -/
def commitRegs (c : Chip) : List (Reg × Datum) :=
  [word BF_REQ_PREAMP_COMMIT 0x0000 (commitValue c.ref_level)]

/-- The preamp byte and its commit. -/
def preampRegs (c : Chip) : List (Reg × Datum) :=
  word BF_REQ_PREAMP BF_REG_PREAMP c.preamp :: commitRegs c

/-- `bf_preamp_commit`. -/
def bfPreampCommit : Usb Unit := do
  let chip ← get
  bfVendorWrite BF_REQ_PREAMP_COMMIT (commitValue chip.ref_level) 0x0000

/-- The commit of the preamp. -/
theorem bfPreampCommit_writes : Writes bfPreampCommit commitRegs :=
  Writes.get fun _ => ⟨_, bfVendorWrite_writes _ _ (by decide), rfl⟩

/-- `bf_preamp_state_write`. -/
def bfPreampStateWrite : Usb Unit := do
  let chip ← get
  bfVendorWrite BF_REQ_PREAMP chip.preamp BF_REG_PREAMP
  bfPreampCommit

/-- The preamp byte, the link word and the commit. -/
theorem bfPreampStateWrite_writes : Writes bfPreampStateWrite preampRegs :=
  Writes.get fun _ =>
    ⟨_, (bfVendorWrite_writes _ _ (by decide)).seq bfPreampCommit_writes, rfl⟩

/-- The word that carries the link and AN 1>2 bits. -/
def linkWord (linked an12 : Bool) : U16 :=
  (if linked then 0x0400 else 0x0000) ||| (if an12 then 0x1000 else 0x0000)

/-- The link and AN 1>2 register, and the commit. -/
def linkRegs (linked an12 : Bool) (c : Chip) : List (Reg × Datum) :=
  word BF_REQ_PREAMP 0x1000 (linkWord linked an12) :: commitRegs c

/-- The writes of `bf_link_put`, `bf_an12_put` and the replay. -/
def writeLink (linked an12 : Bool) : Usb Unit := do
  bfVendorWrite BF_REQ_PREAMP (linkWord linked an12) 0x1000
  bfPreampCommit

/-- The link word and its commit. -/
theorem writeLink_writes (linked an12 : Bool) :
    Writes (writeLink linked an12) (linkRegs linked an12) :=
  (bfVendorWrite_writes _ _ (by decide)).seq bfPreampCommit_writes

/-! ## The overlays on the AN1/2 and PH3/4 blocks -/

/-- What phase invert makes of a crosspoint: its bitwise complement. -/
def phaseValue (invert : Bool) (plain : U16) : U16 := if invert then ~~~plain else plain

/-- The left registers of an analog input in every block. -/
def phaseRegs (mic : Mic) (invert : Bool) (c : Chip) : List (Reg × Datum) :=
  (List.finRange 6).map fun out =>
    xreg (xpointL out mic.src) (phaseValue invert (c.xpoint out mic.src 0))

/-- The loop body of `bf_phase_apply`. -/
def phaseWrite (mic : Mic) (invert : Bool) (out : Out) : Usb Unit := do
  let chip ← get
  let plain := chip.xpoint out mic.src 0
  let value := phaseValue invert plain
  let flag ← blockFlag out
  bfVendorWrite BF_REQ_CROSSPOINT value (xpointL out mic.src ||| flag)

/-- `bf_phase_apply`. -/
def bfPhaseApply (mic : Mic) (invert : Bool) : Usb Unit :=
  each (List.finRange 6) (phaseWrite mic invert)

/-- The crosspoints of an input, as its phase has them. -/
theorem bfPhaseApply_writes (mic : Mic) (invert : Bool) :
    Writes (bfPhaseApply mic invert) (phaseRegs mic invert) := by
  have hb : ∀ out ∈ List.finRange 6, Writes (phaseWrite mic invert out) fun c =>
      [xreg (xpointL out mic.src) (phaseValue invert (c.xpoint out mic.src 0))] := fun out _ =>
    Writes.get fun c =>
      ⟨_, Writes.blockFlag out fun i => bfVendorWrite_writes_flag _ (xpointL_lt _ _) i, rfl⟩
  refine Bus.Sends.congr (Bus.Sends.each _ hb) fun c => ?_
  rw [phaseRegs, List.map_eq_flatMap]

/-- A playback pair's crosspoint into AN1/2, split or not. -/
def splitRegs (pb : Out) (split : Bool) (c : Chip) : List (Reg × Datum) :=
  xpointRegs 0 (pbSrc pb) (if split then 0x2000 else c.xpoint 0 (pbSrc pb) 0)
    (if split then 0x0000 else c.xpoint 0 (pbSrc pb) 1)

/-- `bf_split_apply`. -/
def bfSplitApply (pb : Out) (split : Bool) : Usb Unit := do
  let chip ← get
  let s := bfSources (pbSrc pb)
  let l := if split then 0x2000 else chip.xpoint 0 (pbSrc pb) 0
  let r := if split then 0x0000 else chip.xpoint 0 (pbSrc pb) 1
  bfVendorWrite BF_REQ_CROSSPOINT l (BF_REG_XPOINT_BASE_L + s.idx_l)
  bfVendorWrite BF_REQ_CROSSPOINT r (BF_REG_XPOINT_BASE_R + s.idx_r)

/-- The AN1/2 block starts at the bases. -/
theorem xpointL_zero (src : Src) : xpointL 0 src = BF_REG_XPOINT_BASE_L + (bfSources src).idx_l := rfl

/-- The right crosspoints of the first output pair come after all of its left ones. -/
theorem xpointR_zero (src : Src) : xpointR 0 src = BF_REG_XPOINT_BASE_R + (bfSources src).idx_r := rfl

/-- The plain writes of a crosspoint of the AN1/2 block. -/
theorem writeLow_writes (src : Src) (l r : U16) :
    Writes (do
      bfVendorWrite BF_REQ_CROSSPOINT l (BF_REG_XPOINT_BASE_L + (bfSources src).idx_l)
      bfVendorWrite BF_REQ_CROSSPOINT r (BF_REG_XPOINT_BASE_R + (bfSources src).idx_r))
      fun _ => xpointRegs 0 src l r := by
  rw [← xpointL_zero, ← xpointR_zero]
  exact (bfVendorWrite_writes_plain _ (xpointL_lt _ _)).seq
    (bfVendorWrite_writes_plain _ (xpointR_lt _ _))

/-- The crosspoints of a playback pair, as its split has them. -/
theorem bfSplitApply_writes (pb : Out) (split : Bool) :
    Writes (bfSplitApply pb split) (splitRegs pb split) :=
  Writes.get fun _ => ⟨_, writeLow_writes _ _ _, rfl⟩

/-- The even input of a pair, `mic & ~1`. -/
def trimBase (mic : Mic) : Src := ⟨mic / 2 * 2, by omega⟩

/-- The odd input of a pair. -/
def trimSib (mic : Mic) : Src := ⟨mic / 2 * 2 + 1, by omega⟩

/-- The four registers of an input pair into AN1/2. -/
def trimRegs (mic : Mic) (trim_db2 : ℤ) : List (Reg × Datum) :=
  xpointRegs 0 (trimBase mic) (bfMaster16bit trim_db2) (bfMaster16bit trim_db2) ++
    xpointRegs 0 (trimSib mic) (bfMaster16bit trim_db2) (bfMaster16bit trim_db2)

/-- `bf_trim_apply`. -/
def bfTrimApply (mic : Mic) (trim_db2 : ℤ) : Usb Unit := do
  let sb := bfSources (trimBase mic)
  let ss := bfSources (trimSib mic)
  let trim_raw := bfMaster16bit trim_db2
  bfVendorWrite BF_REQ_CROSSPOINT trim_raw (BF_REG_LOWMAP_BASE_L + sb.idx_l)
  bfVendorWrite BF_REQ_CROSSPOINT trim_raw (BF_REG_LOWMAP_BASE_R + sb.idx_r)
  bfVendorWrite BF_REQ_CROSSPOINT trim_raw (BF_REG_LOWMAP_BASE_L + ss.idx_l)
  bfVendorWrite BF_REQ_CROSSPOINT trim_raw (BF_REG_LOWMAP_BASE_R + ss.idx_r)

/-- The crosspoints of an input pair, as its trim has them. -/
theorem bfTrimApply_writes (mic : Mic) (trim_db2 : ℤ) :
    Writes (bfTrimApply mic trim_db2) fun _ => trimRegs mic trim_db2 := by
  have := (writeLow_writes (trimBase mic) (bfMaster16bit trim_db2) (bfMaster16bit trim_db2)).seq
    (writeLow_writes (trimSib mic) (bfMaster16bit trim_db2) (bfMaster16bit trim_db2))
  rwa [bind_assoc] at this

/-- The left value of a width, `0x1000 * (1 + w)`. -/
def widthL (w : ℤ) : U16 := .ofInt 16 (((0x2000 * (100 + w)).tdiv 2 + 50).tdiv 100)

/-- The registers of AN1 and AN2 into AN1/2 and PH3/4 at a width. -/
def widthRegs (w : ℤ) : List (Reg × Datum) :=
  let l := widthL w
  let r := 0x2000 - l
  [xreg 0x0000 l, xreg 0x001a r, xreg 0x0001 r, xreg 0x001b l, xreg 0x0034 l, xreg 0x004e r,
    xreg 0x0035 r, xreg 0x004f l]

/-- `bf_width_apply`. -/
def bfWidthApply (w : ℤ) : Usb Unit := do
  let l := widthL w
  let r := 0x2000 - l
  bfVendorWrite BF_REQ_CROSSPOINT l 0x0000
  bfVendorWrite BF_REQ_CROSSPOINT r 0x001a
  bfVendorWrite BF_REQ_CROSSPOINT r 0x0001
  bfVendorWrite BF_REQ_CROSSPOINT l 0x001b
  bfVendorWrite BF_REQ_CROSSPOINT l 0x0034
  bfVendorWrite BF_REQ_CROSSPOINT r 0x004e
  bfVendorWrite BF_REQ_CROSSPOINT r 0x0035
  bfVendorWrite BF_REQ_CROSSPOINT l 0x004f

/-- The crosspoints of the first pair, as the width has them. -/
theorem bfWidthApply_writes (w : ℤ) : Writes (bfWidthApply w) fun _ => widthRegs w := by
  have h := fun (v : U16) (idx : ℕ) (hi : idx < BF_INDEX_MASK) => bfVendorWrite_writes_plain v hi
  unfold bfWidthApply
  exact (h _ _ (by decide)).seq <| (h _ _ (by decide)).seq <| (h _ _ (by decide)).seq <|
    (h _ _ (by decide)).seq <| (h _ _ (by decide)).seq <| (h _ _ (by decide)).seq <|
    (h _ _ (by decide)).seq <| h _ _ (by decide)

/-- The AN2 registers of AN1/2 and PH3/4, muted by the MS processor. -/
def msRegs : List (Reg × Datum) := [xreg 0x0035 0, xreg 0x004f 0, xreg 0x0001 0, xreg 0x001b 0]

/-- The writes that engage the MS processor. -/
def writeMs : Usb Unit := do
  bfVendorWrite BF_REQ_CROSSPOINT 0x0000 0x0035
  bfVendorWrite BF_REQ_CROSSPOINT 0x0000 0x004f
  bfVendorWrite BF_REQ_CROSSPOINT 0x0000 0x0001
  bfVendorWrite BF_REQ_CROSSPOINT 0x0000 0x001b

/-- The crosspoints of the first pair under the MS processing. -/
theorem writeMs_writes : Writes writeMs fun _ => msRegs := by
  have h := fun (idx : ℕ) (hi : idx < BF_INDEX_MASK) => bfVendorWrite_writes_plain 0 hi
  unfold writeMs
  exact (h _ (by decide)).seq <| (h _ (by decide)).seq <| (h _ (by decide)).seq <| h _ (by decide)

/-- The two registers of the FX send. -/
def fxRegs (v : U16) : List (Reg × Datum) := [xreg 0x0138 v, xreg 0x0153 v]

/-- The writes of the FX send. -/
def writeFx (v : U16) : Usb Unit := do
  bfVendorWrite BF_REQ_CROSSPOINT v 0x0138
  bfVendorWrite BF_REQ_CROSSPOINT v 0x0153

/-- The FX send. -/
theorem writeFx_writes (v : U16) : Writes (writeFx v) fun _ => fxRegs v :=
  (bfVendorWrite_writes_plain _ (by decide)).seq (bfVendorWrite_writes_plain _ (by decide))

/-! ## DIM, loopback -/

/-- The DIM flag's register. -/
def dimFlagRegs (on : Bool) : List (Reg × Datum) :=
  [word BF_REQ_PREAMP 0x2000 (if on then 0x2000 else 0x0000)]

/-- The Phones masters and the DIM flag, at the steps that DIM restores. -/
def dimRegs (on : Bool) (c : Chip) : List (Reg × Datum) :=
  outRegs 1 (c.muted 1) on (if on then c.master 1 0 else c.dim_saved 0)
    (if on then c.master 1 1 else c.dim_saved 1) ++ dimFlagRegs on

/-- The writes of `bf_dim_apply`. -/
def writeDim (on : Bool) : Usb Unit := do
  let chip ← get
  let step_l := if on then chip.master 1 0 else chip.dim_saved 0
  let step_r := if on then chip.master 1 1 else chip.dim_saved 1
  writeOut 1 (chip.muted 1) on step_l step_r
  bfVendorWrite BF_REQ_PREAMP (if on then 0x2000 else 0x0000) 0x2000

/-- The DIM flag. -/
theorem writeDim_writes (on : Bool) : Writes (writeDim on) (dimRegs on) :=
  Writes.get fun _ => ⟨_, (writeOut_writes _ _ _ _ _).seq
    (bfVendorWrite_writes _ _ (by decide)), rfl⟩

/-- `bf_dim_apply` sets the flag, and the restore point when DIM engages. -/
def setDim (on : Bool) (c : Chip) : Chip :=
  { c with dim_saved := if on then c.master 1 else c.dim_saved, dim := on }

/-- `bf_dim_apply`: after an error the flag is what it was; the restore point is not put back. -/
def bfDimApply (on : Bool) : Usb Unit :=
  Bus.M.settle (setDim on) (writeDim on) fun old c => { c with dim := old.dim }

/-- The full loopback map, with at most one output on. -/
def loopbackRegs (out : ℤ) (on : Bool) : List (Reg × Datum) :=
  (List.range BF_LOOPBACK_CHANNELS).map fun ch =>
    word BF_REQ_LOOPBACK ch
      (if on ∧ ((ch : ℤ) = out * 2 ∨ (ch : ℤ) = out * 2 + 1) then 0x0001 else 0x0000)

/-- `bf_loopback_write_map`. -/
def bfLoopbackWriteMap (out : ℤ) (on : Bool) : Usb Unit :=
  each (List.range BF_LOOPBACK_CHANNELS) fun ch =>
    bfVendorWrite BF_REQ_LOOPBACK
      (if on ∧ ((ch : ℤ) = out * 2 ∨ (ch : ℤ) = out * 2 + 1) then 0x0001 else 0x0000) ch

/-- Every channel of the loopback map. -/
theorem bfLoopbackWriteMap_writes (out : ℤ) (on : Bool) :
    Writes (bfLoopbackWriteMap out on) fun _ => loopbackRegs out on := by
  refine Bus.Sends.congr (Bus.Sends.each _ fun ch _ =>
    bfVendorWrite_writes _ ch (by decide)) fun _ => ?_
  rw [loopbackRegs, List.map_eq_flatMap]

/-! ## Clock -/

/-- The clock and optical bits of the settings word. -/
def settingsWord (c : Chip) : U16 :=
  (if c.clock_optical then BF_SETTINGS_CLOCK_OPTICAL else BF_SETTINGS_CLOCK_INTERNAL) |||
    (if c.optical_spdif then BF_SETTINGS_OPTICAL_SPDIF else 0)

/-- The settings word's register. -/
def settingsRegs (c : Chip) : List (Reg × Datum) :=
  [word BF_REQ_KEEPALIVE BF_REG_KEEPALIVE_SETTINGS (settingsWord c)]

/-- `bf_settings_write`. -/
def bfSettingsWrite : Usb Unit := do
  let chip ← get
  bfVendorWrite BF_REQ_KEEPALIVE (settingsWord chip) BF_REG_KEEPALIVE_SETTINGS

/-- The settings word. -/
theorem bfSettingsWrite_writes : Writes bfSettingsWrite settingsRegs :=
  Writes.get fun _ => ⟨_, bfVendorWrite_writes _ _ (by decide), rfl⟩

/-- The four words of the varispeed quad. -/
def pitchQuad (pitch : ℤ) : Fin 4 → ℕ :=
  let num0 := 12800000 * 1000
  let num2 := 409600000000000
  let den0 := (1000 + pitch).toNat
  let den2 := 48000 * den0
  let b0 := (num0 + den0 / 2) / den0
  ![b0, (b0 * 47554) >>> 16, (num2 + den2 / 2) / den2, (b0 * 41943) >>> 16]

/-- The varispeed quad, as it is sent, and the settings word that commits it. -/
def pitchRegs (pitch : ℤ) (c : Chip) : List (Reg × Datum) :=
  ((List.finRange 4).map fun k =>
    word BF_REQ_DDS ((pitchQuad pitch k &&& 0xff) <<< 8 ||| k) (.ofNat 16 (pitchQuad pitch k >>> 8)))
    ++ settingsRegs c

/-- `bf_pitch_write`. -/
def bfPitchWrite (pitch : ℤ) : Usb Unit := do
  each (List.finRange 4) fun k =>
    bfVendorWrite BF_REQ_DDS (.ofNat 16 (pitchQuad pitch k >>> 8))
      ((pitchQuad pitch k &&& 0xff) <<< 8 ||| k)
  bfSettingsWrite

/-- The varispeed quad, and the settings word that commits it. -/
theorem bfPitchWrite_writes (pitch : ℤ) : Writes (bfPitchWrite pitch) (pitchRegs pitch) := by
  refine Bus.Sends.congr (Writes.seq (Bus.Sends.each _ fun k _ =>
    bfVendorWrite_writes _ _ (by decide)) bfSettingsWrite_writes) fun c => ?_
  rw [pitchRegs, List.map_eq_flatMap]

end BabyfacePro
