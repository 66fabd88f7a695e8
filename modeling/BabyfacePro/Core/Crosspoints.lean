import BabyfacePro.Core.Replay

/-!
# The crosspoint map

Six features write the registers of the crosspoints. A replay writes the cached crosspoints, then the
engaged overlays: width, MS, phase, split, trim. `Chip.shown` is the word that this leaves in a
register, that of the topmost overlay engaged there.

A put writes the words of its own feature, whatever is engaged on the same registers. As long as none
of the puts of a run is such a move (`Setting.Clear`), the map on the wire is the one that a replay
makes (`crosspoints_replayed`); a trim released to 0 dB is one (`released_trim_diverges`).
-/

namespace BabyfacePro

open Registers (last Avoids)

/-! ## The registers of the crosspoints -/

/-- The register of a crosspoint's side. -/
def pointReg (out : Out) (src : Src) (side : Side) : Reg :=
  .ctl BF_REQ_CROSSPOINT (if side = 0 then xpointL out src else xpointR out src)

/-- The crosspoint that a register in the place of one belongs to. -/
def pointAt (idx : ℕ) : ℕ × ℕ × ℕ :=
  let k := idx % 52 % 26
  (idx / 52, if k < 4 then k else k / 2 + 2, idx % 52 / 26)

/-- The register of a crosspoint is that of its output, source and side. -/
theorem pointAt_point (out : Out) (src : Src) (side : Side) :
    pointAt (if side = 0 then xpointL out src else xpointR out src) = (out.val, src.val, side.val) := by
  revert out src side
  decide

/-- Crosspoints have registers of their own. -/
theorem pointReg_inj {out out' : Out} {src src' : Src} {side side' : Side} :
    pointReg out src side = pointReg out' src' side' ↔ out = out' ∧ src = src' ∧ side = side' := by
  refine ⟨fun h => ?_, fun ⟨ho, hs, hd⟩ => by rw [ho, hs, hd]⟩
  have hidx := congrArg pointAt (Reg.ctl.inj h).2
  rw [pointAt_point, pointAt_point] at hidx
  simp only [Prod.mk.injEq] at hidx
  exact ⟨Fin.ext hidx.1, Fin.ext hidx.2.1, Fin.ext hidx.2.2⟩

/-- The FX send's register of a side. -/
def fxReg (side : Side) : Reg := .ctl BF_REQ_CROSSPOINT (if side = 0 then 0x0138 else 0x0153)

/-- The FX send has registers of its own. -/
theorem pointReg_ne_fxReg (out : Out) (src : Src) (side side' : Side) :
    pointReg out src side ≠ fxReg side' := by
  have hidx : ∀ side' : Side, 0x0138 ≤ (if side' = 0 then 0x0138 else 0x0153) := by decide
  intro h
  have heq := (Reg.ctl.inj h).2
  obtain ⟨hl, hr⟩ := xpoint_lt out src
  have hs := hidx side'
  split at heq <;> omega

/-- A crosspoint's register is one. -/
theorem pointReg_isXpoint (out : Out) (src : Src) (side : Side) :
    (pointReg out src side).isXpoint = true := by
  obtain ⟨hl, hr⟩ := xpoint_lt out src
  unfold pointReg Reg.isXpoint
  simp only [decide_true, Bool.true_and, decide_eq_true_eq]
  split <;> omega

/-- The FX send's registers are crosspoints of the device. -/
theorem fxReg_isXpoint (side : Side) : (fxReg side).isXpoint = true := by
  revert side
  decide

/-- A register that is no crosspoint: of the FX send, or a cross register. -/
def NoPoint (a : Reg) : Prop := ∀ out src side, a ≠ pointReg out src side

/-- A register that is a crosspoint has its output, source and side. -/
theorem exists_point {a : Reg} (h : ¬ NoPoint a) : ∃ out src side, a = pointReg out src side := by
  unfold NoPoint at h
  push Not at h
  exact h

/-! ## The lists at a register -/

/-- A pair of crosspoints writes its own registers, and no other. -/
theorem last_xpointRegs_point (o out : Out) (s src : Src) (side : Side) (l r : U16) :
    last (xpointRegs o s l r) (pointReg out src side) =
      if out = o ∧ src = s then some (.word (if side = 0 then l else r)) else none := by
  have hlist : xpointRegs o s l r = [(pointReg o s 0, .word l)] ++ [(pointReg o s 1, .word r)] := rfl
  simp only [hlist, Registers.last_append, Registers.last_singleton, pointReg_inj]
  by_cases h : out = o ∧ src = s
  · obtain ⟨rfl, rfl⟩ := h
    obtain rfl | rfl := left_or_right side <;> simp
  · simp only [h, ← and_assoc, false_and, if_false, Option.or_none]

/-- It writes no other register. -/
theorem xpointRegs_avoids {a : Reg} {out : Out} {src : Src} (h : ∀ side, a ≠ pointReg out src side)
    (l r : U16) : Avoids (fun b => b = a) (xpointRegs out src l r) :=
  .cons (fun he => h 0 he.symm) (.cons (fun he => h 1 he.symm) .nil)

/-- The FX send writes its own registers only. -/
theorem last_fxRegs_of_ne (v : U16) {a : Reg} (h : ∀ side, a ≠ fxReg side) : last (fxRegs v) a = none := by
  have hlist : fxRegs v = [(fxReg 0, .word v), (fxReg 1, .word v)] := rfl
  rw [hlist]
  refine Registers.last_eq_none fun hm => ?_
  obtain he | he : a = fxReg 0 ∨ a = fxReg 1 := by simpa using hm
  · exact h 0 he
  · exact h 1 he

/-- Whether an index is in the place of a cross register: from the fourth on, the left half of a block
has them at odd places and the right half at even ones. -/
def isCross (idx : ℕ) : Bool := 4 ≤ idx % 52 % 26 && idx % 52 % 26 % 2 ≠ idx % 52 / 26

/-- The cross registers carry no crosspoint. -/
theorem crossRegs_avoids (pair out : Out) (src : Src) (side : Side) :
    Avoids (fun a => a = pointReg out src side) (crossRegs pair) := by
  have hpoint : ∀ out src side,
      isCross (if side = (0 : Side) then xpointL out src else xpointR out src) = false := by decide
  have hcross : ∀ pair : Out, (∀ k ∈ crossL, isCross (BF_REG_XPOINT_BASE_L + BF_REG_XPOINT_STRIDE * pair + k)) ∧
      ∀ k ∈ crossR, isCross (BF_REG_XPOINT_BASE_R + BF_REG_XPOINT_STRIDE * pair + k) := by decide
  obtain ⟨hl, hr⟩ := hcross pair
  have hne : ∀ idx, isCross idx = true → ¬ (xreg idx 0).1 = pointReg out src side := by
    intro idx hidx he
    have := hpoint out src side
    rw [← (Reg.ctl.inj he).2, hidx] at this
    cases this
  exact .append (.map fun k hk => hne _ (hl k hk)) (.map fun k hk => hne _ (hr k hk))

/-! ## The topmost overlay -/

/-- The analog input of a source, if it is one. -/
def Src.mic (src : Src) : Mic := ⟨src % 4, Nat.mod_lt _ (by decide)⟩

/-- The playback pair of a source, if it is one. -/
def Src.pb (src : Src) : Out := ⟨(src - 8) % 6, Nat.mod_lt _ (by decide)⟩

/-- The even analog input of a source's pair, which stands for the pair's trim. -/
def Src.trimMic (src : Src) : Mic := ⟨src % 4 / 2 * 2, by omega⟩

/-- The word of a width at the analog inputs 1 and 2: each side has the width's own, and the other
input's the opposite. -/
def widthWord (w : ℤ) (src : Src) (side : Side) : U16 :=
  if src.val = side.val then widthL w else 0x2000 - widthL w

/-- The word of the topmost overlay engaged on a crosspoint's side, or the cached one. -/
def Chip.shown (c : Chip) (out : Out) (src : Src) (side : Side) : U16 :=
  if out = 0 ∧ src.val < 4 ∧ c.trim (Src.trimMic src) ≠ 0 then bfMaster16bit (c.trim (Src.trimMic src) * 2)
  else if out = 0 ∧ 8 ≤ src.val ∧ c.split (Src.pb src) then if side = 0 then 0x2000 else 0
  else if side = 0 ∧ src.val < 4 ∧ c.phase (Src.mic src) then ~~~ c.xpoint out src 0
  else if out.val < 2 ∧ src.val = 1 ∧ c.ms_proc then 0
  else if out.val < 2 ∧ src.val < 2 ∧ c.width ≠ 0 then widthWord c.width src side
  else c.xpoint out src side

/-! ## What a replay leaves in the map -/

section Point

variable (c : Chip) (out : Out) (src : Src) (side : Side)

/-- One word under two conditions. -/
theorem ite_or_ite {p q : Prop} [Decidable p] [Decidable q] (x : Option Datum) :
    (if p then x else none).or (if q then x else none) = if q ∨ p then x else none := by
  by_cases hp : p <;> by_cases hq : q <;> simp [hp, hq]

/-- A choice by side is the value of the side. -/
theorem ite_side (f : Side → U16) : (if side = 0 then f 0 else f 1) = f side := by
  obtain rfl | rfl := left_or_right side <;> rfl

/-- The blocks of the outputs write every crosspoint. -/
theorem last_blocks_point (xpoint : Out → Src → Side → U16) :
    last ((List.finRange 6).flatMap fun out => blockRegs out (xpoint out)) (pointReg out src side) =
      some (.word (xpoint out src side)) := by
  -- Other sources' and other outputs' registers are not this one.
  have hsrc : ∀ s ∈ List.finRange 14, s ≠ src → Avoids (fun a => a = pointReg out src side)
      (xpointRegs out s (xpoint out s 0) (xpoint out s 1)) := fun s _ hs =>
    xpointRegs_avoids (fun d he => hs (pointReg_inj.mp he).2.1.symm) _ _
  have hout : ∀ o ∈ List.finRange 6, o ≠ out →
      Avoids (fun a => a = pointReg out src side) (blockRegs o (xpoint o)) := fun o _ ho =>
    .append (.flatMap fun s _ => xpointRegs_avoids (fun d he => ho (pointReg_inj.mp he).1.symm) _ _)
      (crossRegs_avoids o out src side)
  rw [Registers.last_flatMap_of_mem (List.mem_finRange out) hout, blockRegs, Registers.last_append,
    (crossRegs_avoids out out src side).last_eq_none rfl, Option.none_or,
    Registers.last_flatMap_of_mem (List.mem_finRange src) hsrc, last_xpointRegs_point,
    if_pos ⟨rfl, rfl⟩, ite_side side (xpoint out src)]

/-- The width writes the crosspoints of the first two inputs on the first two outputs. -/
theorem last_widthRegs_point (w : ℤ) : last (widthRegs w) (pointReg out src side) =
    if out.val < 2 ∧ src.val < 2 then some (.word (widthWord w src side)) else none := by
  have hlist : widthRegs w =
      xpointRegs 0 0 (widthL w) (0x2000 - widthL w) ++ (xpointRegs 0 1 (0x2000 - widthL w) (widthL w) ++
        (xpointRegs 1 0 (widthL w) (0x2000 - widthL w) ++
          xpointRegs 1 1 (0x2000 - widthL w) (widthL w))) := rfl
  simp only [hlist, Registers.last_append, last_xpointRegs_point]
  by_cases ho : out.val < 2
  · have ho' : out = 0 ∨ out = 1 := by revert out; decide
    by_cases hs : src.val < 2
    · have hs' : src = 0 ∨ src = 1 := by revert src; decide
      obtain rfl | rfl := ho' <;> obtain rfl | rfl := hs' <;> obtain rfl | rfl := left_or_right side <;> rfl
    · have h0 : src ≠ 0 := fun h => hs (by rw [h]; decide)
      have h1 : src ≠ 1 := fun h => hs (by rw [h]; decide)
      simp only [h0, h1, hs, and_false, if_false, Option.or_none]
  · have h0 : out ≠ 0 := fun h => ho (by rw [h]; decide)
    have h1 : out ≠ 1 := fun h => ho (by rw [h]; decide)
    simp only [h0, h1, ho, false_and, if_false, Option.or_none]

/-- The MS processing clears those of the second input. -/
theorem last_msRegs_point : last msRegs (pointReg out src side) =
    if out.val < 2 ∧ src.val = 1 then some (.word 0) else none := by
  have hlist : msRegs = xpointRegs 1 1 0 0 ++ xpointRegs 0 1 0 0 := rfl
  have hsrc : src = 1 ↔ src.val = 1 := Fin.ext_iff
  have hout : (out = 1 ∨ out = 0) ↔ out.val < 2 := by revert out; decide
  simp only [hlist, Registers.last_append, last_xpointRegs_point, ite_self, ite_or_ite, ← or_and_right,
    hout, hsrc]

/-- The FX send writes no crosspoint. -/
theorem last_fxRegs_point (v : U16) : last (fxRegs v) (pointReg out src side) = none :=
  last_fxRegs_of_ne v fun d => pointReg_ne_fxReg out src side d

/-- A phase writes the left crosspoints of its input. -/
theorem last_phaseRegs_point (mic : Mic) (invert : Bool) :
    last (phaseRegs mic invert c) (pointReg out src side) =
      if side = 0 ∧ src = mic.src then some (.word (phaseValue invert (c.xpoint out src 0))) else none := by
  have hlist : phaseRegs mic invert c = (List.finRange 6).flatMap fun o =>
      [(pointReg o mic.src 0, .word (phaseValue invert (c.xpoint o mic.src 0)))] := by
    rw [phaseRegs, List.map_eq_flatMap]
    rfl
  have hout : ∀ o ∈ List.finRange 6, o ≠ out → Avoids (fun a => a = pointReg out src side)
      [(pointReg o mic.src 0, Datum.word (phaseValue invert (c.xpoint o mic.src 0)))] := fun o _ ho =>
    .cons (fun he => ho (pointReg_inj.mp he).1) .nil
  rw [hlist, Registers.last_flatMap_of_mem (List.mem_finRange out) hout, Registers.last_singleton]
  by_cases h : side = 0 ∧ src = mic.src
  · rw [if_pos h, if_pos (pointReg_inj.mpr ⟨rfl, h.2, h.1⟩), h.2]
  · rw [if_neg h, if_neg fun he => h ⟨(pointReg_inj.mp he).2.2, (pointReg_inj.mp he).2.1⟩]

/-- A trim writes the crosspoints of its input pair on the first output. -/
theorem last_trimRegs_point (mic : Mic) (db2 : ℤ) : last (trimRegs mic db2) (pointReg out src side) =
    if out = 0 ∧ (src = trimBase mic ∨ src = trimSib mic) then some (.word (bfMaster16bit db2))
    else none := by
  simp only [trimRegs, Registers.last_append, last_xpointRegs_point, ite_self, ite_or_ite,
    ← and_or_left]

/-- The phases that are inverted, one after the other. -/
theorem last_phases_point :
    last ((List.finRange 4).flatMap fun mic => if c.phase mic then phaseRegs mic true c else [])
      (pointReg out src side) =
      if side = 0 ∧ src.val < 4 ∧ c.phase (Src.mic src) then some (.word (~~~ c.xpoint out src 0))
      else none := by
  -- A phase writes the crosspoints of its own input only.
  have havoid : ∀ mic : Mic, src ≠ mic.src → Avoids (fun a => a = pointReg out src side)
      (if c.phase mic then phaseRegs mic true c else []) := fun mic hne =>
    .ite fun _ => .map fun o _ he => by
      have hpoint : pointReg o mic.src 0 = pointReg out src side := he
      exact hne (pointReg_inj.mp hpoint).2.1.symm
  by_cases hs : src.val < 4
  · have hmic : src = Mic.src (Src.mic src) := Fin.ext (Nat.mod_eq_of_lt hs).symm
    have hown : ∀ mic ∈ List.finRange 4, mic ≠ Src.mic src → Avoids (fun a => a = pointReg out src side)
        (if c.phase mic then phaseRegs mic true c else []) := fun mic _ hne => by
      refine havoid mic fun he => hne (Fin.ext ?_)
      have hval : src.val = mic.val := congrArg Fin.val he
      -- Of the four inputs only the one of `src` decides.
      exact (Nat.mod_eq_of_lt hs ▸ hval).symm
    rw [Registers.last_flatMap_of_mem (List.mem_finRange (Src.mic src)) hown]
    cases hp : c.phase (Src.mic src) with
    | false => simp
    | true =>
      rw [if_pos rfl, last_phaseRegs_point]
      by_cases hd : side = 0
      · rw [if_pos ⟨hd, hmic⟩, if_pos ⟨hd, hs, rfl⟩]
        rfl
      · rw [if_neg fun h => hd h.1, if_neg fun h => hd h.1]
  -- The other sources are no inputs.
  · rw [if_neg fun h => hs h.2.1]
    refine Avoids.last_eq_none (S := fun a => a = pointReg out src side) (.flatMap fun mic _ => ?_) rfl
    exact havoid mic fun he => hs (by rw [he]; exact mic.isLt)

/-- The splits that are on. -/
theorem last_splits_point :
    last ((List.finRange 6).flatMap fun pb => if c.split pb then splitRegs pb true c else [])
      (pointReg out src side) =
      if out = 0 ∧ 8 ≤ src.val ∧ c.split (Src.pb src) then
        some (.word (if side = 0 then 0x2000 else 0))
      else none := by
  -- A split writes the crosspoints of its own playback pair only.
  have havoid : ∀ pb : Out, src ≠ pbSrc pb → Avoids (fun a => a = pointReg out src side)
      (if c.split pb then splitRegs pb true c else []) := fun pb hne =>
    .ite fun _ => xpointRegs_avoids (fun d he => hne (pointReg_inj.mp he).2.1) _ _
  by_cases hs : 8 ≤ src.val
  · have hmod : (src.val - 8) % 6 = src.val - 8 := Nat.mod_eq_of_lt (by omega)
    have hpb : src = pbSrc (Src.pb src) := Fin.ext (by
      have : BF_SRC_PB1 = 8 := rfl
      simp only [pbSrc, Src.pb, hmod]
      omega)
    have hown : ∀ pb ∈ List.finRange 6, pb ≠ Src.pb src → Avoids (fun a => a = pointReg out src side)
        (if c.split pb then splitRegs pb true c else []) := fun pb _ hne => by
      refine havoid pb fun he => hne (Fin.ext ?_)
      have hval : src.val = 8 + pb.val := congrArg Fin.val he
      show pb.val = (src.val - 8) % 6
      omega
    -- Of the six pairs only the one of `src` decides.
    rw [Registers.last_flatMap_of_mem (List.mem_finRange (Src.pb src)) hown]
    cases hp : c.split (Src.pb src) with
    | false => simp
    | true =>
      simp only [if_true, splitRegs, last_xpointRegs_point, ← hpb, hs, and_true]
  -- The inputs are no playback pairs.
  · rw [if_neg fun h => hs h.2.1]
    refine Avoids.last_eq_none (S := fun a => a = pointReg out src side) (.flatMap fun pb _ => ?_) rfl
    exact havoid pb fun he => hs (by rw [he]; exact Nat.le_add_right _ _)

/-- The trims of the two input pairs. -/
theorem last_trims_point :
    last ([0, 2].flatMap fun mic => if c.trim mic ≠ 0 then trimRegs mic (c.trim mic * 2) else [])
      (pointReg out src side) =
      if out = 0 ∧ src.val < 4 ∧ c.trim (Src.trimMic src) ≠ 0 then
        some (.word (bfMaster16bit (c.trim (Src.trimMic src) * 2)))
      else none := by
  -- The sources of the two pairs.
  have h0 : ∀ src : Src, (src = trimBase 0 ∨ src = trimSib 0) ↔ src.val < 4 ∧ Src.trimMic src = 0 := by
    decide
  have h2 : ∀ src : Src, (src = trimBase 2 ∨ src = trimSib 2) ↔ src.val < 4 ∧ Src.trimMic src = 2 := by
    decide
  have hm : ∀ src : Src, Src.trimMic src = 0 ∨ Src.trimMic src = 2 := by decide
  have hpair : ∀ mic : Mic, last (if c.trim mic ≠ 0 then trimRegs mic (c.trim mic * 2) else [])
      (pointReg out src side) = if c.trim mic ≠ 0 ∧ out = 0 ∧ (src = trimBase mic ∨ src = trimSib mic) then
        some (.word (bfMaster16bit (c.trim mic * 2))) else none := fun mic => by
    by_cases ht : c.trim mic ≠ 0
    · rw [if_pos ht, last_trimRegs_point]
      simp only [ht, true_and, ne_eq, not_false_eq_true]
    · rw [if_neg ht, if_neg fun h => ht h.1]
      rfl
  rw [List.flatMap_cons, List.flatMap_cons, List.flatMap_nil, List.append_nil, Registers.last_append,
    hpair, hpair]
  simp only [h0, h2]
  have h20 : (0 : Mic) ≠ 2 := by decide
  obtain hm | hm := hm src
  · simp only [hm, h20, and_false, if_false, Option.none_or, and_true]
    exact if_congr ⟨fun h => ⟨h.2.1, h.2.2, h.1⟩, fun h => ⟨h.2.2, h.1, h.2.1⟩⟩ rfl rfl
  · simp only [hm, h20.symm, and_false, if_false, Option.or_none, and_true]
    exact if_congr ⟨fun h => ⟨h.2.1, h.2.2, h.1⟩, fun h => ⟨h.2.2, h.1, h.2.1⟩⟩ rfl rfl

/-- An engaged overlay over a word. -/
theorem ite_or_some {p : Prop} [Decidable p] (u v : U16) :
    (if p then some (Datum.word u) else none).or (some (.word v)) =
      some (.word (if p then u else v)) := by
  by_cases h : p <;> simp [h]

/-- The replay leaves the topmost overlay's word on each crosspoint. -/
theorem last_replayXpoints_point :
    last (replayXpoints c) (pointReg out src side) = some (.word (c.shown out src side)) := by
  have hwidth : last (if c.width ≠ 0 then widthRegs c.width else []) (pointReg out src side) =
      if out.val < 2 ∧ src.val < 2 ∧ c.width ≠ 0 then some (.word (widthWord c.width src side))
      else none := by
    by_cases hw : c.width ≠ 0 <;> simp [hw, last_widthRegs_point]
  have hms : last (if c.ms_proc then msRegs else []) (pointReg out src side) =
      if out.val < 2 ∧ src.val = 1 ∧ c.ms_proc then some (.word 0) else none := by
    cases hm : c.ms_proc <;> simp [last_msRegs_point]
  rw [replayXpoints, overlayRegs]
  simp only [Registers.last_append, Option.or_assoc, last_trims_point, last_splits_point,
    last_phases_point, hms, last_fxRegs_point, hwidth, last_blocks_point, Option.none_or, ite_or_some]
  rfl

end Point

/-! ## The registers that are no crosspoints -/

/-- A pair of crosspoints writes crosspoints only. -/
theorem xpointRegs_points (out : Out) (src : Src) (l r : U16) : Avoids NoPoint (xpointRegs out src l r) :=
  .cons (fun h => h out src 0 rfl) (.cons (fun h => h out src 1 rfl) .nil)

/-- So does the width. -/
theorem widthRegs_points (w : ℤ) : Avoids NoPoint (widthRegs w) :=
  .append (xpointRegs_points 0 0 _ _) <| .append (xpointRegs_points 0 1 _ _) <|
    .append (xpointRegs_points 1 0 _ _) (xpointRegs_points 1 1 _ _)

/-- So does the MS processing. -/
theorem msRegs_points : Avoids NoPoint msRegs :=
  .append (xpointRegs_points 1 1 0 0) (xpointRegs_points 0 1 0 0)

/-- So does a phase. -/
theorem phaseRegs_points (mic : Mic) (invert : Bool) (c : Chip) :
    Avoids NoPoint (phaseRegs mic invert c) := .map fun out _ h => h out mic.src 0 rfl

/-- So does a trim. -/
theorem trimRegs_points (mic : Mic) (db2 : ℤ) : Avoids NoPoint (trimRegs mic db2) :=
  .append (xpointRegs_points _ _ _ _) (xpointRegs_points _ _ _ _)

/-- Off the crosspoints the blocks leave the cross registers. -/
theorem last_blocks_off {a : Reg} (ha : NoPoint a) (xpoint : Out → Src → Side → U16) :
    last ((List.finRange 6).flatMap fun out => blockRegs out (xpoint out)) a =
      last ((List.finRange 6).flatMap crossRegs) a := by
  refine Registers.last_flatMap_congr fun out _ => ?_
  have hpoints : Avoids NoPoint ((List.finRange 14).flatMap fun src =>
    xpointRegs out src (xpoint out src 0) (xpoint out src 1)) :=
    .flatMap fun src _ => xpointRegs_points _ _ _ _
  rw [blockRegs, Registers.last_append, hpoints.last_eq_none ha, Option.or_none]

/-- Off the crosspoints a replay leaves the FX send, and zero on the cross registers. -/
theorem last_replayXpoints_off {a : Reg} (ha : NoPoint a) (c : Chip) :
    last (replayXpoints c) a =
      (last (fxRegs c.fx_send) a).or (last ((List.finRange 6).flatMap crossRegs) a) := by
  -- Each overlay writes crosspoints only, so what is off them is left to the FX send and the loop before.
  have hblocks := last_blocks_off ha c.xpoint
  have hwidth : last (if c.width ≠ 0 then widthRegs c.width else []) a = none :=
    Avoids.last_eq_none (.ite fun _ => widthRegs_points _) ha
  have hms : last (if c.ms_proc then msRegs else []) a = none :=
    Avoids.last_eq_none (.ite fun _ => msRegs_points) ha
  have hphase : last ((List.finRange 4).flatMap fun mic =>
      if c.phase mic then phaseRegs mic true c else []) a = none :=
    Avoids.last_eq_none (.flatMap fun mic _ => .ite fun _ => phaseRegs_points mic true c) ha
  have hsplit : last ((List.finRange 6).flatMap fun pb =>
      if c.split pb then splitRegs pb true c else []) a = none :=
    Avoids.last_eq_none (.flatMap fun pb _ => .ite fun _ => xpointRegs_points _ _ _ _) ha
  have htrim : last ([0, 2].flatMap fun mic =>
      if c.trim mic ≠ 0 then trimRegs mic (c.trim mic * 2) else []) a = none :=
    Avoids.last_eq_none (.flatMap fun mic _ => .ite fun _ => trimRegs_points mic _) ha
  simp only [replayXpoints, overlayRegs, Registers.last_append, hblocks, hwidth, hms, hphase, hsplit,
    htrim, Option.none_or, Option.or_none]

/-! ## What a put keeps -/

/-- Whether a put writes crosspoints or the FX send. -/
def Ctl.isXpointPut : Ctl → Bool
  | .xpoint _ _ | .phase _ | .split _ | .trim _ | .ms | .width | .fxSend => true
  | _ => false

/-- No overlay is engaged above what the put writes, and the put does not release trim or width, whose
neutral words are no crosspoints. -/
def Setting.Clear (s : Setting) (c : Chip) : Prop :=
  match s with
  | .xpoint out src _ _ => (out = 0 → src.val < 4 → c.trim (Src.trimMic src) = 0) ∧
      (out = 0 → 8 ≤ src.val → c.split (Src.pb src) = false) ∧
      (src.val < 4 → c.phase (Src.mic src) = false) ∧
      (out.val < 2 → src.val = 1 → c.ms_proc = false) ∧ (out.val < 2 → src.val < 2 → c.width = 0)
  | .phase mic invert => c.trim (Src.trimMic mic.src) = 0 ∧
      (invert = false → (mic.val = 1 → c.ms_proc = false) ∧ (mic.val < 2 → c.width = 0))
  | .trim _ db => db ≠ 0
  | .ms on => c.trim 0 = 0 ∧ c.phase 1 = false ∧ (on = false → c.width = 0)
  | .width w => w ≠ 0 ∧ c.trim 0 = 0 ∧ c.phase 0 = false ∧ c.phase 1 = false ∧ c.ms_proc = false
  | _ => True

/-- The overlays and the crosspoint of a register decide its word. -/
theorem Chip.shown_congr {c d : Chip} {out : Out} {src : Src} {side : Side}
    (hx : d.xpoint out src = c.xpoint out src)
    (ht : out = 0 → src.val < 4 → d.trim (Src.trimMic src) = c.trim (Src.trimMic src))
    (hs : out = 0 → 8 ≤ src.val → d.split (Src.pb src) = c.split (Src.pb src))
    (hp : side = 0 → src.val < 4 → d.phase (Src.mic src) = c.phase (Src.mic src))
    (hm : out.val < 2 → src.val = 1 → d.ms_proc = c.ms_proc)
    (hw : out.val < 2 → src.val < 2 → d.width = c.width) : d.shown out src side = c.shown out src side := by
  -- The overlays in the order in which they cover one another, from the trim down to the width.
  unfold Chip.shown
  refine ite_congr (propext (and_congr_right fun ho => and_congr_right fun hs => by rw [ht ho hs]))
    (fun h => by rw [ht h.1 h.2.1]) fun _ => ?_
  refine ite_congr (propext (and_congr_right fun ho => and_congr_right fun h8 => by rw [hs ho h8]))
    (fun _ => rfl) fun _ => ?_
  refine ite_congr (propext (and_congr_right fun hd => and_congr_right fun h4 => by rw [hp hd h4]))
    (fun _ => by rw [hx]) fun _ => ?_
  refine ite_congr (propext (and_congr_right fun ho => and_congr_right fun h1 => by rw [hm ho h1]))
    (fun _ => rfl) fun _ => ?_
  refine ite_congr (propext (and_congr_right fun ho => and_congr_right fun h2 => by rw [hw ho h2]))
    (fun h => by rw [hw h.1 h.2.1]) fun _ => ?_
  rw [hx]

/-- Under no overlay a register has the cached crosspoint. -/
theorem Chip.shown_plain {c : Chip} {out : Out} {src : Src} (side : Side)
    (ht : out = 0 → src.val < 4 → c.trim (Src.trimMic src) = 0)
    (hs : out = 0 → 8 ≤ src.val → c.split (Src.pb src) = false)
    (hp : src.val < 4 → c.phase (Src.mic src) = false)
    (hm : out.val < 2 → src.val = 1 → c.ms_proc = false)
    (hw : out.val < 2 → src.val < 2 → c.width = 0) : c.shown out src side = c.xpoint out src side := by
  unfold Chip.shown
  rw [if_neg fun h => h.2.2 (ht h.1 h.2.1), if_neg fun h => Bool.false_ne_true ((hs h.1 h.2.1).symm.trans h.2.2),
    if_neg fun h => Bool.false_ne_true ((hp h.2.1).symm.trans h.2.2),
    if_neg fun h => Bool.false_ne_true ((hm h.1 h.2.1).symm.trans h.2.2), if_neg fun h => h.2.2 (hw h.1 h.2.1)]

/-- The writes turn the map of one cache into that of another. -/
def Replaces (ws : List (Reg × Datum)) (c c' : Chip) : Prop :=
  ∀ a, (last ws a).or (last (replayXpoints c) a) = last (replayXpoints c') a

/-- Writes of crosspoints: the crosspoints decide. -/
theorem Replaces.of_points {ws : List (Reg × Datum)} {c c' : Chip} (hws : Avoids NoPoint ws)
    (hfx : c'.fx_send = c.fx_send)
    (h : ∀ out src side, (last ws (pointReg out src side)).or (some (.word (c.shown out src side))) =
      some (.word (c'.shown out src side))) : Replaces ws c c' := by
  intro a
  by_cases ha : NoPoint a
  · rw [hws.last_eq_none ha, Option.none_or, last_replayXpoints_off ha, last_replayXpoints_off ha, hfx]
  · obtain ⟨out, src, side, rfl⟩ := exists_point ha
    rw [last_replayXpoints_point, last_replayXpoints_point]
    exact h out src side

/-- Writes of one word on each crosspoint of a class. -/
theorem Replaces.of_class {ws : List (Reg × Datum)} {c c' : Chip} (hws : Avoids NoPoint ws)
    (hfx : c'.fx_send = c.fx_send) (p : Out → Src → Side → Prop) [∀ out src side, Decidable (p out src side)]
    (v : Out → Src → Side → U16)
    (hlast : ∀ out src side, last ws (pointReg out src side) =
      if p out src side then some (.word (v out src side)) else none)
    (hin : ∀ out src side, p out src side → c'.shown out src side = v out src side)
    (hoff : ∀ out src side, ¬ p out src side → c'.shown out src side = c.shown out src side) :
    Replaces ws c c' := by
  refine .of_points hws hfx fun out src side => ?_
  rw [hlast, ite_or_some]
  by_cases h : p out src side
  · rw [if_pos h, hin _ _ _ h]
  · rw [if_neg h, hoff _ _ _ h]

/-- A fader that no overlay covers replaces the words of its pair, and leaves the others. -/
theorem xpoint_replaces {out : Out} {src : Src} {l r : U16} {c : Chip}
    (h : Setting.Clear (.xpoint out src l r) c) :
    Replaces (xpointRegs out src l r) c (cacheXpoint out src l r c) := by
  obtain ⟨ht, hs, hp, hm, hw⟩ := h
  refine .of_class (xpointRegs_points _ _ _ _) rfl (fun o s _ => o = out ∧ s = src)
    (fun _ _ side => if side = 0 then l else r) (fun o s side => last_xpointRegs_point _ _ _ _ _ _ _) ?_ ?_
  -- On the pair that is put no overlay stands, and the word shown is the cached one.
  · rintro o s side ⟨rfl, rfl⟩
    have hplain : (cacheXpoint o s l r c).shown o s side = (cacheXpoint o s l r c).xpoint o s side :=
      Chip.shown_plain side ht hs hp hm hw
    rw [hplain]
    simp only [cacheXpoint, Function.update_self]
    exact (ite_side side ![l, r]).symm
  -- Elsewhere neither the overlays nor the crosspoint has changed.
  · intro o s side hne
    refine Chip.shown_congr ?_ (fun _ _ => rfl) (fun _ _ => rfl) (fun _ _ => rfl) (fun _ _ => rfl)
      fun _ _ => rfl
    by_cases ho : o = out
    · subst ho
      have hsrc : s ≠ src := fun hs => hne ⟨rfl, hs⟩
      simp only [cacheXpoint, Function.update_self, Function.update_of_ne hsrc]
    · simp only [cacheXpoint, Function.update_of_ne ho]

/-- So does a phase of the left crosspoints of its input. -/
theorem phase_replaces {mic : Mic} {invert : Bool} {c : Chip} (h : Setting.Clear (.phase mic invert) c) :
    Replaces (phaseRegs mic invert c) c { c with phase := Function.update c.phase mic invert } := by
  obtain ⟨ht, hoff⟩ := h
  have hlt : mic.src.val < 4 := mic.isLt
  have hmic : Src.mic mic.src = mic := Fin.ext (Nat.mod_eq_of_lt mic.isLt)
  refine .of_class (phaseRegs_points _ _ _) rfl (fun _ s side => side = 0 ∧ s = mic.src)
    (fun o s _ => phaseValue invert (c.xpoint o s 0)) (fun o s side => last_phaseRegs_point _ _ _ _ _ _) ?_ ?_
  -- An inverted phase shows under the trim alone; one that is released uncovers the cached word.
  · rintro o _ _ ⟨rfl, rfl⟩
    cases invert with
    | true =>
      unfold Chip.shown
      have hon : Function.update c.phase mic true (Src.mic mic.src) = true := by
        rw [hmic]
        exact Function.update_self _ _ _
      rw [if_neg fun h => h.2.2 ht, if_neg fun h => absurd h.2.1 (by omega), if_pos ⟨rfl, hlt, hon⟩]
      rfl
    | false =>
      obtain ⟨hm, hw⟩ := hoff rfl
      refine Chip.shown_plain 0 (fun _ _ => ht) (fun _ h8 => absurd h8 (by omega)) (fun _ => ?_)
        (fun _ h1 => hm h1) fun _ h2 => hw h2
      rw [hmic]
      exact Function.update_self _ _ _
  -- The other crosspoints have another input's phase, or are right ones.
  · intro o s side hne
    refine Chip.shown_congr rfl (fun _ _ => rfl) (fun _ _ => rfl) (fun hd h4 => ?_) (fun _ _ => rfl)
      fun _ _ => rfl
    refine Function.update_of_ne (fun he => hne ⟨hd, Fin.ext ?_⟩) _ _
    have hval : s.val % 4 = mic.val := congrArg Fin.val he
    rw [Nat.mod_eq_of_lt h4] at hval
    exact hval

/-- So does a split, which nothing but a trim covers. -/
theorem split_replaces {pb : Out} {on : Bool} {c : Chip} :
    Replaces (splitRegs pb on c) c { c with split := Function.update c.split pb on } := by
  have hpbSrc : (pbSrc pb).val = 8 + pb.val := rfl
  have hpb : Src.pb (pbSrc pb) = pb := Fin.ext (by
    have hlt := pb.isLt
    show (8 + pb.val - 8) % 6 = pb.val
    omega)
  refine .of_class (xpointRegs_points _ _ _ _) rfl (fun o s _ => o = 0 ∧ s = pbSrc pb)
    (fun _ _ side => if side = 0 then if on then 0x2000 else c.xpoint 0 (pbSrc pb) 0
      else if on then 0x0000 else c.xpoint 0 (pbSrc pb) 1)
    (fun o s side => last_xpointRegs_point _ _ _ _ _ _ _) ?_ ?_
  -- A split shows its full scale over the cached word, and is covered by nothing that reaches a playback
  -- pair.
  · rintro _ _ side ⟨rfl, rfl⟩
    have hon : Function.update c.split pb on (Src.pb (pbSrc pb)) = on := by
      rw [hpb]
      exact Function.update_self _ _ _
    cases on with
    | true =>
      unfold Chip.shown
      rw [if_neg fun h => absurd h.2.1 (by omega), if_pos ⟨rfl, by omega, hon⟩]
      rfl
    | false =>
      rw [Chip.shown_plain side (fun _ h4 => absurd h4 (by omega)) (fun _ _ => hon)
        (fun h4 => absurd h4 (by omega)) (fun _ h1 => absurd h1 (by omega))
        fun _ h2 => absurd h2 (by omega)]
      exact (ite_side side (c.xpoint 0 (pbSrc pb))).symm
  -- The other crosspoints have another pair's split.
  · intro o s side hne
    refine Chip.shown_congr rfl (fun _ _ => rfl) (fun ho h8 => ?_) (fun _ _ => rfl) (fun _ _ => rfl)
      fun _ _ => rfl
    refine Function.update_of_ne (fun he => hne ⟨ho, Fin.ext ?_⟩) _ _
    have hval : (s.val - 8) % 6 = pb.val := congrArg Fin.val he
    omega

/-- The sources of an input's pair are those whose trim a put of the input sets. -/
theorem trim_pair (mic : Mic) (src : Src) : (src = trimBase mic ∨ src = trimSib mic) ↔
    src.val < 4 ∧ (Src.trimMic src = mic ∨ Src.trimMic src = mic.sib) := by
  revert mic src
  decide

/-- So does a trim that is engaged. -/
theorem trim_replaces {mic : Mic} {db : ℤ} {c : Chip} (h : Setting.Clear (.trim mic db) c) :
    Replaces (trimRegs mic (db * 2)) c (cacheTrim mic db c) := by
  refine .of_class (trimRegs_points _ _) rfl (fun o s _ => o = 0 ∧ (s = trimBase mic ∨ s = trimSib mic))
    (fun _ _ _ => bfMaster16bit (db * 2)) (fun o s side => last_trimRegs_point _ _ _ _ _) ?_ ?_
  -- The pair of the trim shows the trim, whichever of its two microphones was put.
  · rintro o s side ⟨rfl, hpair⟩
    obtain ⟨hlt, hmic⟩ := (trim_pair mic s).mp hpair
    have hset : (cacheTrim mic db c).trim (Src.trimMic s) = db := by
      simp only [cacheTrim]
      obtain hmic | hmic := hmic
      · rw [hmic, Function.update_of_ne mic.ne_sib, Function.update_self]
      · rw [hmic, Function.update_self]
    unfold Chip.shown
    rw [hset, if_pos ⟨rfl, hlt, h⟩]
  -- The other crosspoints have another pair's trim.
  · intro o s side hne
    refine Chip.shown_congr rfl (fun ho h4 => ?_) (fun _ _ => rfl) (fun _ _ => rfl) (fun _ _ => rfl)
      fun _ _ => rfl
    have hmic : ¬ (Src.trimMic s = mic ∨ Src.trimMic s = mic.sib) := fun hm =>
      hne ⟨ho, (trim_pair mic s).mpr ⟨h4, hm⟩⟩
    rw [not_or] at hmic
    simp only [cacheTrim, Function.update_of_ne hmic.1, Function.update_of_ne hmic.2]

/-- A put of the MS processing writes the second input on the first two outputs. -/
theorem last_msPutRegs_point (on : Bool) (c : Chip) (out : Out) (src : Src) (side : Side) :
    last (msPutRegs on c) (pointReg out src side) =
      if out.val < 2 ∧ src.val = 1 then some (.word (if on then 0 else c.xpoint out src side)) else none := by
  cases on with
  | true => exact last_msRegs_point out src side
  | false =>
    -- With the processing off the second input's words of both outputs are written from the cache.
    have hlist : msPutRegs false c = xpointRegs 0 1 (c.xpoint 0 1 0) (c.xpoint 0 1 1) ++
      xpointRegs 1 1 (c.xpoint 1 1 0) (c.xpoint 1 1 1) := rfl
    have hout : out.val < 2 ↔ out = 0 ∨ out = 1 := by revert out; decide
    have hsrc : src.val = 1 ↔ src = 1 := by revert src; decide
    simp only [hlist, Registers.last_append, last_xpointRegs_point, hout, hsrc, ite_side]
    by_cases hs : src = 1
    · subst hs
      by_cases h0 : out = 0
      · subst h0
        rfl
      · by_cases h1 : out = 1
        · subst h1
          rfl
        · simp only [h0, h1, false_and, or_self, if_false, Option.or_none]
    · simp only [hs, and_false, if_false, Option.or_none]

/-- The MS processing replaces the words that it writes. -/
theorem ms_replaces {on : Bool} {c : Chip} (h : Setting.Clear (.ms on) c) :
    Replaces (msPutRegs on c) c { c with ms_proc := on } := by
  obtain ⟨ht, hp, hw⟩ := h
  have hpoints : Avoids NoPoint (msPutRegs on c) := by
    unfold msPutRegs
    split
    · exact msRegs_points
    · exact .append (xpointRegs_points _ _ _ _) (xpointRegs_points _ _ _ _)
  refine .of_class hpoints rfl (fun o s _ => o.val < 2 ∧ s.val = 1)
    (fun o s side => if on then 0 else c.xpoint o s side) (fun o s side => last_msPutRegs_point _ _ _ _ _)
    ?_ ?_
  -- The second input is silent under the processing, and shows the cached word without it.
  · rintro o s side ⟨ho, hs⟩
    obtain rfl : s = 1 := Fin.ext hs
    cases on with
    | true =>
      have hphase : ¬ c.phase 1 = true := by rw [hp]; exact Bool.false_ne_true
      unfold Chip.shown
      rw [if_neg fun h => h.2.2 ht, if_neg fun h => absurd h.2.1 (by decide),
        if_neg fun h => hphase h.2.2, if_pos ⟨ho, rfl, rfl⟩]
      rfl
    | false =>
      exact Chip.shown_plain side (fun _ _ => ht) (fun _ h8 => absurd h8 (by decide)) (fun _ => hp)
        (fun _ _ => rfl) fun _ _ => hw rfl
  -- The other words do not depend on the processing.
  · intro o s side hne
    exact Chip.shown_congr rfl (fun _ _ => rfl) (fun _ _ => rfl) (fun _ _ => rfl)
      (fun ho hs => absurd ⟨ho, hs⟩ hne) fun _ _ => rfl

/-- So does a width that is engaged. -/
theorem width_replaces {w : ℤ} {c : Chip} (h : Setting.Clear (.width w) c) :
    Replaces (widthRegs w) c { c with width := w } := by
  obtain ⟨hw, ht, hp0, hp1, hm⟩ := h
  refine .of_class (widthRegs_points w) rfl (fun o s _ => o.val < 2 ∧ s.val < 2)
    (fun _ s side => widthWord w s side) (fun o s side => last_widthRegs_point _ _ _ _) ?_ ?_
  · rintro o s side ⟨ho, hs⟩
    have hs' : ∀ s : Src, s.val < 2 → Src.trimMic s = 0 ∧ (Src.mic s = 0 ∨ Src.mic s = 1) := by decide
    obtain ⟨htrim, hmic⟩ := hs' s hs
    have hphase : ¬ c.phase (Src.mic s) = true := by
      obtain hmic | hmic := hmic <;> rw [hmic] <;> simp [hp0, hp1]
    have hms : ¬ c.ms_proc = true := by rw [hm]; exact Bool.false_ne_true
    unfold Chip.shown
    rw [if_neg fun h => h.2.2 (htrim ▸ ht), if_neg fun h => absurd h.2.1 (by omega),
      if_neg fun h => hphase h.2.2, if_neg fun h => hms h.2.2, if_pos ⟨ho, hs, hw⟩]
  · intro o s side hne
    exact Chip.shown_congr rfl (fun _ _ => rfl) (fun _ _ => rfl) (fun _ _ => rfl)
      (fun _ _ => rfl) fun ho hs => absurd ⟨ho, hs⟩ hne

/-- The FX send touches no crosspoint. -/
theorem fxSend_replaces {v : U16} {c : Chip} : Replaces (fxRegs v) c { c with fx_send := v } := by
  intro a
  by_cases ha : NoPoint a
  · rw [last_replayXpoints_off ha, last_replayXpoints_off ha, ← Option.or_assoc]
    -- The two registers of the old level are those of the new one.
    have haddr : (fxRegs v).map Prod.fst = (fxRegs c.fx_send).map Prod.fst := rfl
    by_cases hm : a ∈ (fxRegs v).map Prod.fst
    · obtain ⟨u, hu⟩ := Registers.last_isSome hm
      rw [hu, Option.some_or]
    · have hn : last (fxRegs c.fx_send) a = none := Registers.last_eq_none (haddr ▸ hm)
      rw [hn, Option.or_none]
  · obtain ⟨out, src, side, rfl⟩ := exists_point ha
    rw [last_fxRegs_point, Option.none_or, last_replayXpoints_point, last_replayXpoints_point]
    rfl

/-- The put of a setting under no overlay leaves the map of the new cache. -/
theorem Setting.replaces {ctl : Ctl} {x : ElemValue} {s : Setting} (hs : ctl.setting x = some s)
    (hx : ctl.isXpointPut = true) {c : Chip} (h : s.Clear c) : Replaces (s.writes c) c (s.cache c) := by
  -- One lemma for each control whose put writes the map.
  cases ctl <;> try cases hx
  case xpoint out src =>
    simp only [Ctl.setting, Option.ite_none_right_eq_some, Option.some.injEq] at hs
    obtain ⟨-, rfl⟩ := hs
    exact xpoint_replaces h
  case phase mic =>
    simp only [Ctl.setting, Option.some.injEq] at hs
    subst hs
    exact phase_replaces h
  case split pb =>
    simp only [Ctl.setting, Option.some.injEq] at hs
    subst hs
    exact split_replaces
  case trim mic =>
    simp only [Ctl.setting, Option.ite_none_right_eq_some, Option.some.injEq] at hs
    obtain ⟨-, rfl⟩ := hs
    exact trim_replaces h
  case ms =>
    simp only [Ctl.setting, Option.some.injEq] at hs
    subst hs
    exact ms_replaces h
  case width =>
    simp only [Ctl.setting, Option.ite_none_right_eq_some, Option.some.injEq] at hs
    obtain ⟨-, rfl⟩ := hs
    exact width_replaces h
  case fxSend =>
    simp only [Ctl.setting, Option.ite_none_right_eq_some, Option.some.injEq] at hs
    obtain ⟨-, rfl⟩ := hs
    exact fxSend_replaces

/-! ## Runs of puts -/

/-- The successful puts of crosspoints, overlays and the FX send after a probe, each allowed by `p`. -/
inductive XpointRun (p : Setting → Chip → Prop) : World → Prop
  | probe {st0 : U8} {reprobe : Bool} {jiffies : ℤ} {ps : Params} {w : World}
    (h : Probed st0 reprobe jiffies ps w) : XpointRun p w
  | put {w w' : World} {k : Clock} {x : ElemValue} {ctl : Ctl} {r : ℕ} (h : XpointRun p w)
    (hx : ctl.isXpointPut = true) (ha : ∀ s, ctl.setting x = some s → p s w.chip)
    (hp : bfPut k x ctl w = (.ok r, w')) : XpointRun p w'

/-- The crosspoint map on the wire is the one that a replay makes from the cache, for a device that
lost its registers. -/
def Restored (w : World) : Prop :=
  ∀ usb w' a, Reg.isXpoint a = true → bfResumeLocked { w with wire := [], usb := usb } = (.ok (), w') →
    last (w'.wire.map Xfer.write) a = last (w.wire.map Xfer.write) a

/-- The put finds its value cached, or it is under no overlay. -/
def Setting.Unshadowed (s : Setting) (c : Chip) : Prop := s.cached c = true ∨ s.Clear c

/-- The map on the wire is the cache's. -/
def OnWire (w : World) : Prop :=
  ∀ a, Reg.isXpoint a = true → last (w.wire.map Xfer.write) a = last (replayXpoints w.chip) a

/-- The invariant of the cache holds along such a run. -/
theorem XpointRun.sound {p : Setting → Chip → Prop} {w : World} (h : XpointRun p w) : w.chip.Sound := by
  induction h with
  | probe hp => exact hp.sound
  | @put w w' k x ctl r _ _ _ hp ih =>
    have hs := bfPut_sound k x ctl ih
    rwa [hp] at hs

/-- The mixer cache decides the map. -/
theorem replayXpoints_congr {c d : Chip} (h : d.toMixer = c.toMixer) :
    replayXpoints d = replayXpoints c := by
  simp only [replayXpoints, overlayRegs, phaseRegs, splitRegs, h]

/-- After a probe the last word of each crosspoint is the one that is shown. -/
theorem Probed.onWire {st0 : U8} {reprobe : Bool} {jiffies : ℤ} {ps : Params} {w : World}
    (h : Probed st0 reprobe jiffies ps w) : OnWire w := by
  intro a ha
  obtain ⟨st, hc, hw⟩ := babyfaceProbe_run h
  have hmix := Reg.isMixer_of_isXpoint ha
  have hiface : last [((.iface, .alt BF_ALT_1) : Reg × Datum)] a = none :=
    Registers.last_eq_none fun hm => by
      rw [List.map_singleton, List.mem_singleton] at hm
      rw [hm] at ha
      cases ha
  -- The blocks before the replay write no crosspoint, or are overwritten by it.
  have hmaster : last ((List.finRange 6).flatMap defaultMasterRegs) a = none :=
    Avoids.last_eq_none (.flatMap fun out _ => masterRegs_not_xpoint out _ _ _ _) ha
  have hcache : w.chip.toMixer = (probedMixer st ps).toMixer := by
    have hq : w.chip.quiet = (probedChip st reprobe jiffies ps).quiet := by
      rw [← hc, Chip.quiet_quiet]
    rw [Chip.quiet_eq hq]
    rfl
  rw [hw, replayXpoints_congr hcache]
  simp only [probeRegs, defaultMixerRegs, Registers.last_append, hiface, hmaster,
    (coldRegs_misses _).last_eq_none hmix, (settingsRegs_misses _).last_eq_none hmix,
    last_flagRegs_xpoint ha, Option.none_or, Option.or_none]
  rw [replayXpoints, Registers.last_append]
  rfl

/-- Whether an overlay is in the way does not depend on the flag count. -/
theorem Setting.clear_quiet (s : Setting) (c : Chip) : s.Clear c.quiet ↔ s.Clear c := by
  cases s <;> rfl

/-- An unshadowed put keeps the map in step with the cache. -/
theorem OnWire.put {w w' : World} {k : Clock} {x : ElemValue} {ctl : Ctl} {r : ℕ} (h : OnWire w)
    (hx : ctl.isXpointPut = true) (ha : ∀ s, ctl.setting x = some s → s.Unshadowed w.chip)
    (hp : bfPut k x ctl w = (.ok r, w')) : OnWire w' := by
  intro a hxp
  obtain ⟨s, hs, hh⟩ | ⟨pair, rfl⟩ | ⟨-, hr⟩ := bfPut_cases k x ctl
  · obtain ⟨-, -, rfl⟩ | ⟨hsame, -, hc, hw, -⟩ := hh.of_ok hp
    · exact h a hxp
    -- A value that was cached already is no put of the map, so the other case of `Unshadowed` holds.
    · have hclear : s.Clear w.chip.quiet := by
        rw [Setting.cached_quiet] at hsame
        refine (s.clear_quiet _).mpr ((ha s hs).resolve_left fun hcached => ?_)
        rw [hsame] at hcached
        cases hcached
      have hreplaces := Setting.replaces hs hx hclear a
      have hcache : w'.chip.toMixer = (s.cache w.chip.quiet).toMixer := by
        rw [Chip.quiet_eq hc]
      have hquiet : replayXpoints w.chip.quiet = replayXpoints w.chip := replayXpoints_congr rfl
      rw [hw, Registers.last_append, h a hxp, ← hquiet, hreplaces, replayXpoints_congr hcache]
  · cases hx
  · obtain ⟨e, -, hw⟩ := hr w
    rw [hw] at hp
    cases hp

/-- The last word of each crosspoint stays the one that is shown. -/
theorem XpointRun.onWire {w : World} (h : XpointRun Setting.Unshadowed w) : OnWire w := by
  induction h with
  | probe hp => exact hp.onWire
  | put _ hx ha hp ih => exact ih.put hx ha hp

/-- What a replay of a device that lost its registers leaves in the map. -/
theorem last_replayed {w w' : World} {usb : ℕ → Bool} (hd : w.chip.DimSaved)
    (h : bfResumeLocked { w with wire := [], usb := usb } = (.ok (), w')) {a : Reg}
    (ha : a.isXpoint = true) :
    last (w'.wire.map Xfer.write) a = last (replayXpoints w.chip) a := by
  obtain ⟨-, vs, hvs, hw⟩ := bfResumeLocked_run (w := { w with wire := [], usb := usb }) hd h
  have heq : Avoids (fun a => Reg.isXpoint a = true) vs := fun x hx => by
    obtain ⟨ch, b, rfl⟩ := hvs x hx
    exact Bool.false_ne_true
  have hquiet : replayXpoints w.chip.quiet = replayXpoints w.chip := replayXpoints_congr rfl
  rw [hw, List.map_nil, List.nil_append, Registers.last_append, heq.last_eq_none ha, Option.none_or,
    last_resumeRegs_xpoint ha, hquiet]

/-- A map that follows the cache is what a replay makes. -/
theorem OnWire.restored {w : World} (h : OnWire w) (hs : w.chip.Sound) : Restored w :=
  fun _ _ a ha hr => (last_replayed hs.dim hr ha).trans (h a ha).symm

/-- The controls of the crosspoints decide the map. -/
theorem replayXpoints_of_bfGet {c d : Chip} (h : ∀ g : Ctl, g.isXpointPut = true → bfGet d g = bfGet c g)
    (a : Reg) : last (replayXpoints d) a = last (replayXpoints c) a := by
  -- The get handlers give the cached values back, so equal readings are equal values.
  have hbool : ∀ {p q : Bool}, [ofBool p] = [ofBool q] → p = q := by decide
  have hword : ∀ {u v : U16}, ((u.toNat : ℤ) = v.toNat) → u = v := fun he =>
    BitVec.eq_of_toNat_eq (Int.ofNat_inj.mp he)
  have hx : ∀ out src, d.xpoint out src = c.xpoint out src := fun out src => by
    have hget := h (.xpoint out src) rfl
    simp only [bfGet, List.cons.injEq, and_true] at hget
    funext side
    obtain rfl | rfl := left_or_right side
    · exact hword hget.1
    · exact hword hget.2
  have ht : ∀ mic, d.trim mic = c.trim mic := fun mic => (List.cons.inj (h (.trim mic) rfl)).1
  have hs : ∀ pb, d.split pb = c.split pb := fun pb => hbool (h (.split pb) rfl)
  have hp : ∀ mic, d.phase mic = c.phase mic := fun mic => hbool (h (.phase mic) rfl)
  have hm : d.ms_proc = c.ms_proc := hbool (h .ms rfl)
  have hw : d.width = c.width := (List.cons.inj (h .width rfl)).1
  have hfx : d.fx_send = c.fx_send := hword (List.cons.inj (h .fxSend rfl)).1
  -- Off the crosspoints the FX send decides, on them the overlays and the crosspoint.
  by_cases ha : NoPoint a
  · rw [last_replayXpoints_off ha, last_replayXpoints_off ha, hfx]
  · obtain ⟨out, src, side, rfl⟩ := exists_point ha
    rw [last_replayXpoints_point, last_replayXpoints_point, Chip.shown_congr (hx out src)
      (fun _ _ => ht _) (fun _ _ => hs _) (fun _ _ => hp _) (fun _ _ => hm) fun _ _ => hw]

/-- In a run of unshadowed puts the map on the wire is what a replay makes from the cache, and two such
runs that end in the same values of the controls leave the same map. -/
theorem crosspoints_replayed {w : World} (h : XpointRun Setting.Unshadowed w) :
    Restored w ∧ ∀ w₂, XpointRun Setting.Unshadowed w₂ →
      (∀ g : Ctl, g.isXpointPut = true → bfGet w₂.chip g = bfGet w.chip g) →
      ∀ a, Reg.isXpoint a = true →
        last (w₂.wire.map Xfer.write) a = last (w.wire.map Xfer.write) a := by
  refine ⟨h.onWire.restored h.sound, fun w₂ h₂ hget a ha => ?_⟩
  rw [h₂.onWire a ha, h.onWire a ha, replayXpoints_of_bfGet hget]

/-! ## A released trim -/

/-- A put of one number. -/
def putValue (v : ℤ) : ElemValue := { value := fun _ => v }

/-- The trim of AN1 at `-10` dB on a new card. -/
def engagedTrim : World := (bfPut clock0 (putValue (-10)) (.trim 0) freshCard).2

/-- The first trim is engaged. -/
theorem engagedTrim_run : ∃ r, bfPut clock0 (putValue (-10)) (.trim 0) freshCard =
    (.ok r, engagedTrim) := eq_of_isOk (by decide +kernel)

/-- An engaged trim survives a replay. -/
theorem crosspoints_replayed_trim : Restored engagedTrim := by
  obtain ⟨r, hrun⟩ := engagedTrim_run
  have hclear : ∀ s, (Ctl.trim 0).setting (putValue (-10)) = some s → s.Unshadowed freshCard.chip := by
    intro s hs
    simp only [Ctl.setting, Option.ite_none_right_eq_some, Option.some.injEq] at hs
    obtain ⟨-, rfl⟩ := hs
    have hne : toInt32 ((putValue (-10)).value 0) ≠ 0 := by decide
    exact .inr hne
  exact (crosspoints_replayed (.put (.probe freshCard_probed) rfl hclear hrun)).1

/-- The trim of AN1 back at 0 dB. -/
def releasedTrim : World := (bfPut clock0 (putValue 0) (.trim 0) engagedTrim).2

/-- It is released. -/
theorem releasedTrim_run : ∃ r, bfPut clock0 (putValue 0) (.trim 0) engagedTrim =
    (.ok r, releasedTrim) := eq_of_isOk (by decide +kernel)

/-- A replay up to the EQ's upload. -/
def bfResumeRegs : Usb Unit := do
  let chip ← Bus.M.get
  usbSetInterface chip.alt
  bfColdInit
  babyfaceRestoreState
  bfStateApplyFlags

/-- The locked part of a resume is the replay of the registers, and the EQ. -/
theorem bfResumeLocked_eq : bfResumeLocked = bfResumeRegs >>= fun _ => bfEqReupload := by
  simp only [bfResumeLocked, bfResumeRegs, bind_assoc]

/-- The replay after it. -/
def replayedTrim : World := (bfResumeLocked { releasedTrim with wire := [], usb := fun _ => true }).2

/-- The card of the released trim is resumed. -/
theorem replayedTrim_run : bfResumeLocked { releasedTrim with wire := [], usb := fun _ => true } =
    (.ok (), replayedTrim) := by
  -- The registers get through, and the EQ's upload returns no error in any case.
  obtain ⟨_, hhead⟩ := eq_of_isOk (x := bfResumeRegs { releasedTrim with wire := [], usb := fun _ => true })
    (by decide +kernel)
  have heq : Bus.Frames Xfer.write (fun _ _ => () = ()) (fun _ => True) (fun _ => False) bfEqReupload :=
    bfEqReupload_frames (.view fun _ => ()) (fun _ _ _ _ _ _ _ => rfl) (fun _ _ => rfl)
      fun _ _ => trivial
  obtain ⟨_, w', hrun⟩ := heq.run_ok
    (bfResumeRegs { releasedTrim with wire := [], usb := fun _ => true }).2
  have hresume : bfResumeLocked { releasedTrim with wire := [], usb := fun _ => true } = (.ok (), w') := by
    rw [bfResumeLocked_eq, Bus.M.bind_of_ok hhead, hrun]
  rw [replayedTrim, hresume]

/-- The release writes 0 dB to the crosspoints of AN1 and AN2, and the replay their faders. -/
theorem released_trim_diverges :
    ¬ ∀ w, XpointRun (fun _ _ => True) w → Restored w := by
  intro hall
  obtain ⟨_, hon⟩ := engagedTrim_run
  obtain ⟨_, hoff⟩ := releasedTrim_run
  have hrun : XpointRun (fun _ _ => True) releasedTrim :=
    .put (.put (.probe freshCard_probed) rfl (fun _ _ => trivial) hon) rfl (fun _ _ => trivial) hoff
  have hpoint := pointReg_isXpoint 0 0 0
  -- The device has the trim's 0 dB, the cache a fader that is down.
  have hdevice : last (releasedTrim.wire.map Xfer.write) (pointReg 0 0 0) = some (.word 0x2000) := by
    have hzero : toInt32 ((putValue 0).value 0) = 0 := by decide
    have hset : (Ctl.trim 0).setting (putValue 0) = some (.trim 0 0) := by
      simp only [Ctl.setting, hzero]
      rfl
    have hh : Handles (bfPut clock0 (putValue 0) (.trim 0)) _ _ _ _ _ := bfPut_handles clock0 hset
    obtain ⟨hsame, -, -⟩ | ⟨-, -, -, hw, -⟩ := hh.of_ok hoff
    · exact absurd hsame (by decide +kernel)
    · have htrim : last (trimRegs 0 (0 * 2)) (pointReg 0 0 0) = some (.word (bfMaster16bit (0 * 2))) :=
        (last_trimRegs_point 0 0 0 0 _).trans (if_pos ⟨rfl, .inl rfl⟩)
      have hraw : bfMaster16bit (0 * 2) = 0x2000 := by decide
      have hput : last ((Setting.trim 0 0).writes engagedTrim.chip.quiet) (pointReg 0 0 0) =
          some (.word (bfMaster16bit (0 * 2))) := htrim
      rw [hw, Registers.last_append, hput, Option.some_or, hraw]
  have hreplay : last (replayedTrim.wire.map Xfer.write) (pointReg 0 0 0) = some (.word 0) := by
    rw [last_replayed hrun.sound.dim replayedTrim_run hpoint, last_replayXpoints_point]
    decide +kernel
  have hmap := hall _ hrun _ _ (pointReg 0 0 0) hpoint replayedTrim_run
  rw [hdevice, hreplay] at hmap
  exact absurd hmap (by decide)

end BabyfacePro
