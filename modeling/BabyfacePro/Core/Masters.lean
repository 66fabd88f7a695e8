import BabyfacePro.Core.Failure
import BabyfacePro.Core.Replay

/-!
# The masters on the wire

Seven writers derive the four master registers of an output from its volume, its mute and DIM. The
card is watched from a probe on, with no failed transfer: the registers last written agree with the
cache at all times (`masters_match_wire`). The 8-bit registers lag behind after a click of the OUT
wheel, which the firmware follows by itself; the watch remembers for which outputs.
-/

namespace BabyfacePro

open Registers (last Avoids)

/-! ## Registers and their words -/

/-- The 8-bit master of a side. -/
def reg8 (out : Out) (side : Side) : Reg := .ctl BF_REQ_GAIN (BF_REG_MASTER_8 + 2 * out + side)

/-- The 16-bit master of a side. -/
def reg16 (out : Out) (side : Side) : Reg :=
  .ctl BF_REQ_CROSSPOINT (BF_REG_MASTER_16 + 2 * out + side)

/-- The 8-bit master that the cache stands for. -/
def Chip.word8 (c : Chip) (out : Out) (side : Side) : Datum :=
  .word ((bfOutReg8 (c.muted out) (out = 1 && c.dim) (c.master out side)).setWidth 16)

/-- The 16-bit master that the cache stands for. -/
def Chip.word16 (c : Chip) (out : Out) (side : Side) : Datum :=
  .word (bfOutReg16 (c.muted out) (out = 1 && c.dim) (c.master out side))

/-- An 8-bit master's register is a master's. -/
theorem reg8_isMaster (out : Out) (side : Side) : (reg8 out side).isMaster = true := by
  revert out side
  decide

/-- So is a 16-bit one's. -/
theorem reg16_isMaster (out : Out) (side : Side) : (reg16 out side).isMaster = true := by
  revert out side
  decide

/-- The four registers of an output, and no others, are in its list. -/
theorem reg_mem_outRegs (o out : Out) (side : Side) (muted dim : Bool) (l r : U16) :
    (reg8 out side ∈ (outRegs o muted dim l r).map Prod.fst ↔ out = o) ∧
      (reg16 out side ∈ (outRegs o muted dim l r).map Prod.fst ↔ out = o) := by
  have h : ∀ o out : Out, ∀ side, (reg8 out side ∈ (masterRegs o 0 0 0 0).map Prod.fst ↔ out = o) ∧
      (reg16 out side ∈ (masterRegs o 0 0 0 0).map Prod.fst ↔ out = o) := by decide
  exact h o out side

/-- The four registers of an output are different. -/
theorem outRegs_nodup (out : Out) (muted dim : Bool) (l r : U16) :
    ((outRegs out muted dim l r).map Prod.fst).Nodup := by
  have h : ∀ out : Out, ((masterRegs out 0 0 0 0).map Prod.fst).Nodup := by decide
  exact h out

/-- They hold the words of both sides. -/
theorem outRegs_mem (c : Chip) (out : Out) (side : Side) :
    (reg8 out side, c.word8 out side) ∈ c.outRegs out ∧
      (reg16 out side, c.word16 out side) ∈ c.outRegs out := by
  obtain rfl | rfl := left_or_right side
  · exact ⟨List.mem_cons_self, List.mem_cons_of_mem _ (List.mem_cons_of_mem _ List.mem_cons_self)⟩
  · exact ⟨List.mem_cons_of_mem _ List.mem_cons_self, List.mem_cons_of_mem _
      (List.mem_cons_of_mem _ (List.mem_cons_of_mem _ List.mem_cons_self))⟩

/-- An output's list leaves the cached words. -/
theorem last_outRegs_self (c : Chip) (out : Out) (side : Side) :
    last (c.outRegs out) (reg8 out side) = some (c.word8 out side) ∧
      last (c.outRegs out) (reg16 out side) = some (c.word16 out side) := by
  have hn := outRegs_nodup out (c.muted out) (out = 1 && c.dim) (c.master out 0) (c.master out 1)
  obtain ⟨h8, h16⟩ := outRegs_mem c out side
  exact ⟨Registers.last_of_mem hn h8, Registers.last_of_mem hn h16⟩

/-- The masters of an output write no other's. -/
theorem last_outRegs_ne {o out : Out} (h : out ≠ o) (side : Side) (muted dim : Bool) (l r : U16) :
    last (outRegs o muted dim l r) (reg8 out side) = none ∧
      last (outRegs o muted dim l r) (reg16 out side) = none := by
  obtain ⟨h8, h16⟩ := reg_mem_outRegs o out side muted dim l r
  exact ⟨Registers.last_eq_none fun hm => h (h8.mp hm),
    Registers.last_eq_none fun hm => h (h16.mp hm)⟩

/-! ## The watch -/

/-- A card that is watched: for each output, whether an OUT-wheel click was the last that happened to
its 8-bit registers. -/
structure Watch where
  w : World
  clicked : Out → Bool

/-- Whether both 8-bit registers of an output were written between two states. -/
def rewritten (w w' : World) (out : Out) : Bool :=
  ∀ side, reg8 out side ∈ ((w'.wire.map Xfer.write).drop w.wire.length).map Prod.fst

/-- The watch after a step to `w'`, in which the firmware moved the outputs `click`. -/
def Watch.after (m : Watch) (w' : World) (click : Out → Bool) : Watch :=
  ⟨w', fun out => (m.clicked out || click out) && !rewritten m.w w' out⟩

/-- No transfer is going to fail. -/
def Live (w : World) : Prop := ∀ i, w.usb i = true

/-- The puts that write masters. -/
def Ctl.isMasterPut : Ctl → Bool
  | .master _ | .mute _ | .dim => true
  | _ => false

/-- A step of a card whose masters are watched. -/
inductive MasterStep (m : Watch) : Watch → Prop
  | put (k : Clock) (x : ElemValue) {ctl : Ctl} (h : ctl.isMasterPut = true) :
    MasterStep m (m.after (bfPut k x ctl m.w).2 fun _ => false)
  /-- The firmware moves the 8-bit registers of the selected output at a click. -/
  | outWheel (delta now : ℤ) : MasterStep m
      (m.after (bfPanelOutWheel delta now m.w).2 fun out => out = bfPanelOutPair m.w.chip)
  | balanceWheel (delta : ℤ) : MasterStep m (m.after (bfPanelBalanceWheel delta m.w).2 fun _ => false)
  | resync (now : ℤ) : MasterStep m (m.after (bfPanelOutResync now m.w).2 fun _ => false)
  | remute {out : Out} (h : m.w.chip.muted out = true) :
    MasterStep m (m.after (bfPanelRemute out m.w).2 fun _ => false)
  | resume {jiffies : ℤ} {w' : World} (h : babyfaceResume jiffies m.w = (.ok (), w')) :
    MasterStep m (m.after w' fun _ => false)
  /-- Whatever leaves the mixer cache and the EQ alone, such as a new OUT selection. -/
  | other {c : Chip} (h : c.toMixer = m.w.chip.toMixer) (he : c.eq = m.w.chip.eq) :
    MasterStep m (m.after { m.w with chip := c } fun _ => false)

/-- A card watched from its probe on, with no failed transfer. -/
inductive MasterRun : Watch → Prop
  | probe {st0 : U8} {reprobe : Bool} {jiffies : ℤ} {p : Params} {w : World}
    (h : Probed st0 reprobe jiffies p w) :
    MasterRun ⟨{ w with wire := [], usb := fun _ => true }, fun _ => false⟩
  | step {m m' : Watch} (h : MasterRun m) (hs : MasterStep m m') : MasterRun m'

/-- The masters last written agree with the cache. -/
structure Watch.Agrees (m : Watch) : Prop where
  /-- The 16-bit masters. -/
  high : ∀ out side v, last (m.w.wire.map Xfer.write) (reg16 out side) = some v →
    v = m.w.chip.word16 out side
  /-- The 8-bit masters, unless the firmware moved them. -/
  low : ∀ out side v, m.clicked out = false →
    last (m.w.wire.map Xfer.write) (reg8 out side) = some v → v = m.w.chip.word8 out side
  /-- The restore point of DIM. -/
  saved : m.w.chip.DimSaved

/-- What the writes `ws` of a step from the cache `c` to `c'` have to do: leave the word of `c'` in
each master, or not touch a master whose word stays. -/
structure Covers (c c' : Chip) (click : Out → Bool) (ws : List (Reg × Datum)) : Prop where
  high : ∀ out side, last ws (reg16 out side) = some (c'.word16 out side) ∨
    (last ws (reg16 out side) = none ∧ c'.word16 out side = c.word16 out side)
  low : ∀ out side, last ws (reg8 out side) = some (c'.word8 out side) ∨
    (last ws (reg8 out side) = none ∧ (click out = true ∨ c'.word8 out side = c.word8 out side))

/-- A step whose writes cover its change of the cache keeps the agreement. -/
theorem Watch.Agrees.after {m : Watch} (h : m.Agrees) {w' : World} {click : Out → Bool}
    {ws : List (Reg × Datum)} (hw : w'.wire.map Xfer.write = m.w.wire.map Xfer.write ++ ws)
    (hc : Covers m.w.chip w'.chip click ws) (hd : w'.chip.DimSaved) : (m.after w' click).Agrees where
  -- The 16-bit registers follow the cache at once.
  high out side v hv := by
    have hv' : last (m.w.wire.map Xfer.write ++ ws) (reg16 out side) = some v := hw ▸ hv
    rw [Registers.last_append] at hv'
    rcases hc.high out side with hs | ⟨hs, hsame⟩
    · rw [hs, Option.some_or] at hv'
      exact (Option.some.inj hv').symm
    · rw [hs, Option.none_or] at hv'
      exact (h.high out side v hv').trans hsame.symm
  -- The 8-bit ones may be one click behind.
  low out side v hclick hv := by
    have hv' : last (m.w.wire.map Xfer.write ++ ws) (reg8 out side) = some v := hw ▸ hv
    rw [Registers.last_append] at hv'
    rcases hc.low out side with hs | ⟨hs, hsame⟩
    · rw [hs, Option.some_or] at hv'
      exact (Option.some.inj hv').symm
    · -- The register was not written, so no click came before or with this step.
      have hnot : rewritten m.w w' out = false := by
        refine decide_eq_false fun hall => ?_
        have hmem := hall side
        rw [hw, List.drop_left' (List.length_map _)] at hmem
        obtain ⟨u, hu⟩ := Registers.last_isSome hmem
        cases hs.symm.trans hu
      have hquiet : (m.clicked out || click out) = false := by
        have hoff : ((m.clicked out || click out) && !rewritten m.w w' out) = false := hclick
        rw [hnot, Bool.not_false, Bool.and_true] at hoff
        exact hoff
      rw [Bool.or_eq_false_iff] at hquiet
      rw [hs, Option.none_or] at hv'
      have hword := hsame.resolve_left (by rw [hquiet.2]; decide)
      exact (h.low out side v hquiet.1 hv').trans hword.symm
  saved := hd

/-! ## The steps cover their changes -/

/-- The words of an output depend on its mute, DIM and its steps. -/
theorem words_congr {c c' : Chip} {out : Out} (hmute : c'.muted out = c.muted out)
    (hdim : (out = 1 && c'.dim) = (out = 1 && c.dim)) (hm : c'.master out = c.master out)
    (side : Side) : c'.word8 out side = c.word8 out side ∧ c'.word16 out side = c.word16 out side := by
  unfold Chip.word8 Chip.word16
  rw [hmute, hdim, hm]
  exact ⟨rfl, rfl⟩

/-- The volume of an output: its steps, its mute, and DIM. -/
def Chip.volume (c : Chip) (out : Out) : (Side → U16) × Bool × Bool :=
  (c.master out, c.muted out, out = 1 && c.dim)

/-- The words of an output depend on its steps, mute and DIM only. -/
theorem words_of_volume {c c' : Chip} {out : Out} (h : c'.volume out = c.volume out) (side : Side) :
    c'.word8 out side = c.word8 out side ∧ c'.word16 out side = c.word16 out side := by
  simp only [Chip.volume, Prod.mk.injEq] at h
  obtain ⟨hmaster, hmute, hdim⟩ := h
  exact words_congr hmute hdim hmaster side

/-- A step that writes nothing covers a change of the cache that no word sees. -/
theorem Covers.silent {c c' : Chip} (click : Out → Bool) (h : c'.toMixer = c.toMixer) :
    Covers c c' click [] := by
  have hw : ∀ out side, c'.word8 out side = c.word8 out side ∧
      c'.word16 out side = c.word16 out side := by
    intro out side
    unfold Chip.word8 Chip.word16
    rw [h]
    exact ⟨rfl, rfl⟩
  exact ⟨fun out side => .inr ⟨rfl, (hw out side).2⟩, fun out side => .inr ⟨rfl, .inr (hw out side).1⟩⟩

/-- A step that writes all four masters of an output, from the cache that it leaves, and changes no
other output's words. -/
theorem Covers.output {c c' : Chip} {click : Out → Bool} {o : Out} {ws vs : List (Reg × Datum)}
    (hws : ws = c'.outRegs o ++ vs) (hvs : Registers.Avoids (fun a => a.isMaster = true) vs)
    (hother : ∀ out side, out ≠ o → c'.word8 out side = c.word8 out side ∧
      c'.word16 out side = c.word16 out side) : Covers c c' click ws := by
  subst hws
  refine ⟨fun out side => ?_, fun out side => ?_⟩
  · rw [Registers.last_append, hvs.last_eq_none (reg16_isMaster out side), Option.none_or]
    by_cases ho : out = o
    · subst ho
      exact .inl (last_outRegs_self c' out side).2
    · exact .inr ⟨(last_outRegs_ne ho side _ _ _ _).2, (hother out side ho).2⟩
  · rw [Registers.last_append, hvs.last_eq_none (reg8_isMaster out side), Option.none_or]
    by_cases ho : out = o
    · subst ho
      exact .inl (last_outRegs_self c' out side).1
    · exact .inr ⟨(last_outRegs_ne ho side _ _ _ _).1, .inr (hother out side ho).1⟩

/-- The two halves of an output's list name registers of their own. -/
theorem last_halves (o out : Out) (side : Side) (l8 r8 : U8) (l16 r16 : U16) :
    last (regs8 o l8 r8) (reg16 out side) = none ∧ last (regs16 o l16 r16) (reg8 out side) = none := by
  have h : ∀ o out : Out, ∀ side, reg16 out side ∉ (regs8 o 0 0).map Prod.fst ∧
      reg8 out side ∉ (regs16 o 0 0).map Prod.fst := by decide
  exact ⟨Registers.last_eq_none (h o out side).1, Registers.last_eq_none (h o out side).2⟩

/-- The 8-bit masters of an output write no other's. -/
theorem last_regs8_ne {o out : Out} (h : out ≠ o) (side : Side) (l8 r8 : U8) :
    last (regs8 o l8 r8) (reg8 out side) = none := by
  have hmem : ∀ o out : Out, ∀ side, reg8 out side ∈ (regs8 o 0 0).map Prod.fst → out = o := by decide
  exact Registers.last_eq_none fun hm => h (hmem o out side hm)

/-- The 16-bit half of an output's list leaves what the list leaves. -/
theorem last_regs16 (c : Chip) (o out : Out) (side : Side) :
    last (regs16 o (bfOutReg16 (c.muted o) (o = 1 && c.dim) (c.master o 0))
      (bfOutReg16 (c.muted o) (o = 1 && c.dim) (c.master o 1))) (reg16 out side) =
      last (c.outRegs o) (reg16 out side) := by
  unfold Chip.outRegs outRegs
  rw [masterRegs_eq, Registers.last_append,
    (last_halves o out side (bfOutReg8 _ _ _) (bfOutReg8 _ _ _) 0 0).1, Option.or_none]

/-- The 8-bit half of an output's list leaves what the list leaves. -/
theorem last_regs8 (c : Chip) (o out : Out) (side : Side) :
    last (regs8 o (bfOutReg8 (c.muted o) (o = 1 && c.dim) (c.master o 0))
      (bfOutReg8 (c.muted o) (o = 1 && c.dim) (c.master o 1))) (reg8 out side) =
      last (c.outRegs o) (reg8 out side) := by
  unfold Chip.outRegs outRegs
  rw [masterRegs_eq, Registers.last_append,
    (last_halves o out side 0 0 (bfOutReg16 _ _ _) (bfOutReg16 _ _ _)).2, Option.none_or]

/-- A step that writes the 16-bit masters only, at a click of the output's wheel. -/
theorem Covers.click {c c' : Chip} {o : Out}
    (hother : ∀ out side, out ≠ o → c'.word8 out side = c.word8 out side ∧
      c'.word16 out side = c.word16 out side) :
    Covers c c' (fun out => out = o) (regs16 o
      (bfOutReg16 (c'.muted o) (o = 1 && c'.dim) (c'.master o 0))
      (bfOutReg16 (c'.muted o) (o = 1 && c'.dim) (c'.master o 1))) := by
  refine ⟨fun out side => ?_, fun out side => .inr ⟨(last_halves o out side 0 0 _ _).2, ?_⟩⟩
  · rw [last_regs16]
    by_cases ho : out = o
    · subst ho
      exact .inl (last_outRegs_self c' out side).2
    · exact .inr ⟨(last_outRegs_ne ho side _ _ _ _).2, (hother out side ho).2⟩
  · by_cases ho : out = o
    · exact .inl (decide_eq_true ho)
    · exact .inr (hother out side ho).1

/-- A muted output's 8-bit masters are those of mute. -/
theorem Covers.remute {c : Chip} {click : Out → Bool} {o : Out} (h : c.muted o = true) :
    Covers c c click (regs8 o BF_MASTER_MUTE BF_MASTER_MUTE) := by
  have hmute : ∀ dim step, bfOutReg8 (c.muted o) dim step = BF_MASTER_MUTE := fun dim step => by
    unfold bfOutReg8
    rw [h, if_pos rfl]
  have hregs := last_regs8 c o
  simp only [hmute] at hregs
  refine ⟨fun out side => .inr ⟨(last_halves o out side _ _ 0 0).1, rfl⟩, fun out side => ?_⟩
  rw [hregs]
  by_cases ho : out = o
  · subst ho
    exact .inl (last_outRegs_self c out side).1
  · exact .inr ⟨(last_outRegs_ne ho side _ _ _ _).1, .inr rfl⟩

/-- The mixer cache decides. -/
theorem Covers.congr {c c' d d' : Chip} {click : Out → Bool} {ws : List (Reg × Datum)}
    (h : Covers c c' click ws) (hc : d.toMixer = c.toMixer) (hc' : d'.toMixer = c'.toMixer) :
    Covers d d' click ws := by
  have hw : ∀ {c d : Chip}, d.toMixer = c.toMixer → ∀ out side, d.word8 out side = c.word8 out side ∧
      d.word16 out side = c.word16 out side := by
    intro c d hm out side
    unfold Chip.word8 Chip.word16
    rw [hm]
    exact ⟨rfl, rfl⟩
  refine ⟨fun out side => ?_, fun out side => ?_⟩
  · rw [(hw hc out side).2, (hw hc' out side).2]
    exact h.high out side
  · rw [(hw hc out side).1, (hw hc' out side).1]
    exact h.low out side

/-- A step that went through: it covers its change of the cache. -/
structure Advances (click : Out → Bool) (w w' : World) : Prop where
  live : Live w'
  writes : ∃ ws, w'.wire.map Xfer.write = w.wire.map Xfer.write ++ ws ∧
    Covers w.chip w'.chip click ws

/-- Nothing happens. -/
theorem Advances.idle {click : Out → Bool} {w : World} (hl : Live w) : Advances click w w :=
  ⟨hl, [], by rw [List.append_nil], .silent click rfl⟩

/-- A new master changes the volume of its output only. -/
theorem cacheMaster_volume {o out : Out} (h : out ≠ o) (l r : U16) (c : Chip) :
    (cacheMaster o l r c).volume out = c.volume out := by
  show (Function.update c.master o ![l, r] out, _) = _
  rw [Function.update_of_ne h]
  rfl

/-- It changes no other output's words. -/
theorem cacheMaster_other (o : Out) (l r : U16) (c : Chip) {out : Out} (side : Side) (h : out ≠ o) :
    (cacheMaster o l r c).word8 out side = c.word8 out side ∧
      (cacheMaster o l r c).word16 out side = c.word16 out side :=
  words_of_volume (cacheMaster_volume h l r c) side

/-- The masters' puts write the masters of one output, from the cache that they leave. -/
theorem Setting.serves {ctl : Ctl} {x : ElemValue} {s : Setting} (h : ctl.setting x = some s)
    (hb : ctl.isMasterPut = true) {c : Chip} (hc : c.DimSaved) (hs : s.cached c = false) :
    ∃ o vs, s.writes c = (s.cache c).outRegs o ++ vs ∧ Misses Reg.isMaster vs ∧
      (∀ out, out ≠ o → (s.cache c).volume out = c.volume out) ∧ (s.cache c).toPanel = c.toPanel := by
  -- A master's put is backed by registers, which tell what its setting writes.
  have hreg : ctl.regBacked = true := by cases ctl <;> first | rfl | cases hb
  have hw := Setting.writes_eq h hreg hc hs
  -- Of the three the DIM put writes its flag too.
  cases ctl <;> try cases hb
  case master out =>
    simp only [Ctl.setting, Option.ite_none_right_eq_some, Option.some.injEq] at h
    obtain ⟨-, rfl⟩ := h
    exact ⟨out, [], hw.trans (List.append_nil _).symm, .nil, fun o ho => cacheMaster_volume ho _ _ c, rfl⟩
  case mute out =>
    simp only [Ctl.setting, Option.some.injEq] at h
    subst h
    refine ⟨out, [], hw.trans (List.append_nil _).symm, .nil, fun o ho => ?_, rfl⟩
    show (_, Function.update c.muted out _ o, _) = _
    rw [Function.update_of_ne ho]
    rfl
  case dim =>
    simp only [Ctl.setting, Option.some.injEq] at h
    subst h
    refine ⟨1, _, hw, (dimFlagRegs_misses _).mono fun _ => Reg.isMixer_of_isMaster, fun o ho => ?_, rfl⟩
    simp only [Chip.volume, decide_eq_false ho, Bool.false_and]
    rfl

/-- A put of a master, a mute or DIM covers the outputs whose words it changes. -/
theorem Setting.covers {ctl : Ctl} {x : ElemValue} {s : Setting} (h : ctl.setting x = some s)
    (hb : ctl.isMasterPut = true) {c : Chip} (hc : c.DimSaved) (hs : s.cached c = false)
    (click : Out → Bool) : Covers c (s.cache c) click (s.writes c) := by
  obtain ⟨o, vs, hw, hvs, hother, -⟩ := Setting.serves h hb hc hs
  exact .output hw hvs fun out side ho => words_of_volume (hother out ho) side

/-- Such a put sends what it changes. -/
theorem put_advances (k : Clock) (x : ElemValue) {ctl : Ctl} (hb : ctl.isMasterPut = true)
    {w : World} (hl : Live w) (hd : w.chip.DimSaved) (click : Out → Bool) :
    Advances click w (bfPut k x ctl w).2 := by
  obtain ⟨s, hs, hh⟩ | ⟨pair, rfl⟩ | ⟨-, hr⟩ := bfPut_cases k x ctl
  · obtain ⟨-, hp⟩ | ⟨hsame, w', hp, hc, hw, hl'⟩ := hh.run_live hl
    · rw [hp]
      exact .idle hl
    · rw [hp]
      have hcov := Setting.covers hs hb (c := w.chip.quiet) hd hsame click
      exact ⟨hl', _, hw, hcov.congr rfl (by rw [Chip.quiet_eq hc])⟩
  · cases hb
  · obtain ⟨e, -, hp⟩ := hr w
    rw [hp]
    exact .idle hl

/-- A mute that the panel writes again. -/
theorem remute_advances {w : World} (hl : Live w) {out : Out} (h : w.chip.muted out = true)
    (click : Out → Bool) : Advances click w (bfPanelRemute out w).2 := by
  obtain ⟨w', hm, hc, hw, hl'⟩ :=
    (post8_moves out BF_MASTER_MUTE BF_MASTER_MUTE).run_live hl
  have hcov : Covers w.chip w.chip click _ := .remute h
  unfold bfPanelRemute
  rw [hm]
  exact ⟨hl', _, hw, hcov.congr rfl (by rw [Chip.quiet_eq hc]; rfl)⟩

/-- A turn of the wheel on an output writes the 16-bit masters only, and is one of its clicks. -/
theorem outWheel_advances {w : World} (hl : Live w) (delta now : ℤ) :
    Advances (fun out => out = bfPanelOutPair w.chip) w (bfPanelOutWheel delta now w).2 := by
  unfold bfPanelOutWheel
  rw [Bus.M.bind_of_ok (Bus.M.get_run w), Bus.M.ite_run]
  split
  -- Muted, both masters are written, and nothing counts as a click.
  · exact remute_advances hl ‹_› _
  · -- The wheel's notes are no part of the mixer cache.
    -- Unmuted, the 16-bit masters follow and the 8-bit ones are left behind.
    generalize outWheelLevels w.chip delta (clickTime w.chip now) = db
    generalize clickTime w.chip now = t
    generalize bfPanelOutPair w.chip = out
    have htrack : Moves (Bus.M.modify (trackWheel out db delta t)) (trackWheel out db delta t)
        (fun _ => []) fun _ => [] := Bus.Does.modify fun _ => rfl
    obtain ⟨w', hm, hc, hw, hl'⟩ := ((bfPanelOutWheelWrite_moves out (wheelStep db.1)
      (wheelStep db.2)).seq htrack fun _ => rfl).run_live hl
    have hcov : Covers w.chip (cacheMaster out (wheelStep db.1) (wheelStep db.2) w.chip) _ _ :=
      .click (o := out) fun o side ho => cacheMaster_other out _ _ w.chip side ho
    have hup : (cacheMaster out (wheelStep db.1) (wheelStep db.2) w.chip).master out =
        ![wheelStep db.1, wheelStep db.2] := Function.update_self _ _ _
    rw [hup] at hcov
    rw [hm]
    rw [List.append_nil] at hw
    exact ⟨hl', _, hw, hcov.congr rfl (by rw [Chip.quiet_eq hc]; rfl)⟩

/-- The four masters of an output at new steps. -/
theorem writeMaster_covers (o : Out) (l r : U16) (c : Chip) (click : Out → Bool) :
    Covers c (cacheMaster o l r c) click (outRegs o (c.muted o) (o = 1 && c.dim) l r) := by
  have hup : (cacheMaster o l r c).master o = ![l, r] := Function.update_self _ _ _
  have hregs : outRegs o (c.muted o) (o = 1 && c.dim) l r = (cacheMaster o l r c).outRegs o ++ [] := by
    rw [List.append_nil, Chip.outRegs, hup]
    rfl
  exact .output hregs .nil fun out side ho => cacheMaster_other o l r c side ho

/-- A turn on the balance writes all four masters. -/
theorem balanceWheel_advances {w : World} (hl : Live w) (delta : ℤ) (click : Out → Bool) :
    Advances click w (bfPanelBalanceWheel delta w).2 := by
  unfold bfPanelBalanceWheel
  rw [Bus.M.bind_of_ok (Bus.M.get_run w), Bus.M.ite_run]
  split
  · exact remute_advances hl ‹_› _
  rw [Bus.M.ite_run]
  split
  · exact .idle hl
  · generalize balanceTurn (balanceLevels w.chip (bfPanelOutPair w.chip)) delta = db
    obtain ⟨w', hm, hc, hw, hl'⟩ :=
      (bfPanelWriteMaster_moves (bfPanelOutPair w.chip) (wheelStep db.1) (wheelStep db.2)).run_live hl
    rw [hm]
    exact ⟨hl', _, hw, (writeMaster_covers _ _ _ w.chip click).congr rfl
      (by rw [Chip.quiet_eq hc]; rfl)⟩

/-- With no failure to come, the resync sends nothing or the cached levels of an output. -/
theorem bfPanelOutResync_sends {w : World} (hl : Live w) (now : ℤ) :
    ∃ ws, (bfPanelOutResync now w).2.wire.map Xfer.write = w.wire.map Xfer.write ++ ws ∧
      (ws = [] ∨ ∃ o, ws = w.chip.outRegs o) := by
  have hnone : ∀ w' : World, w'.wire = w.wire →
      ∃ ws, w'.wire.map Xfer.write = w.wire.map Xfer.write ++ ws ∧ (ws = [] ∨ ∃ o, ws = w.chip.outRegs o) :=
    fun w' hw => ⟨[], by rw [hw, List.append_nil], .inl rfl⟩
  unfold bfPanelOutResync
  rw [Bus.M.bind_of_ok (Bus.M.get_run w), Bus.M.ite_run]
  -- Three early returns send nothing.
  split
  · exact hnone _ rfl
  rw [Bus.M.bind_of_ok (Bus.M.modify_run _ w), Bus.M.ite_run, Bus.M.ite_run]
  split
  · exact hnone _ rfl
  split
  · exact hnone _ rfl
  · rename_i hmute
    let o := w.chip.panel_out_wheel_out
    let w₀ : World := { w with chip := { w.chip with panel_out_resync := false } }
    have hregs : outRegs o false (o = 1 && w.chip.dim) (w.chip.master o 0) (w.chip.master o 1) =
        w.chip.outRegs o := by
      rw [Chip.outRegs, (Bool.not_eq_true _).mp hmute]
    -- What is left writes one output from its cache.
    obtain ⟨w', hm, -, hw, -⟩ := (postOut_moves o false (o = 1 && w.chip.dim)
      (w.chip.master o 0) (w.chip.master o 1)).run_live (w := w₀) hl
    have hrun : (postOut o false (o = 1 && w.chip.dim) (w.chip.master o 0) (w.chip.master o 1) w₀).2 =
        w' := congrArg Prod.snd hm
    rw [← hrun] at hw
    exact ⟨_, hw, .inr ⟨o, hregs⟩⟩

/-- The resync writes them as well. -/
theorem resync_advances {w : World} (hl : Live w) (now : ℤ) (click : Out → Bool) :
    Advances click w (bfPanelOutResync now w).2 := by
  have hframe : WheelFrame (fun c d : Chip => d.toMixer = c.toMixer) fun _ => True :=
    ⟨Bus.Framing.view fun c : Chip => c.toMixer, fun _ _ => rfl, fun _ _ => trivial, fun _ _ => trivial⟩
  have hkeep : Keeps (fun c d : Chip => d.toMixer = c.toMixer) (bfPanelOutResync now) :=
    bfPanelOutResync_frames hframe (fun _ => rfl) now
  have hmix : (bfPanelOutResync now w).2.chip.toMixer = w.chip.toMixer := hkeep.state w
  obtain ⟨ws, hw, hws⟩ := bfPanelOutResync_sends hl now
  refine ⟨hkeep.live hl, ws, hw, ?_⟩
  obtain rfl | ⟨o, rfl⟩ := hws
  · exact .silent click hmix
  · have hcov : Covers w.chip w.chip click (w.chip.outRegs o) :=
      .output (List.append_nil _).symm .nil fun _ _ _ => ⟨rfl, rfl⟩
    exact hcov.congr rfl hmix

/-- All outputs' lists, one after the other, leave the cached words. -/
theorem last_allRegs (c : Chip) (out : Out) (side : Side) :
    last ((List.finRange 6).flatMap c.outRegs) (reg8 out side) = some (c.word8 out side) ∧
      last ((List.finRange 6).flatMap c.outRegs) (reg16 out side) = some (c.word16 out side) := by
  have haddr : (((List.finRange 6).flatMap fun out => masterRegs out 0 0 0 0).map Prod.fst).Nodup := by
    decide
  have hn : (((List.finRange 6).flatMap c.outRegs).map Prod.fst).Nodup := by
    rw [List.map_flatMap] at haddr ⊢
    exact haddr
  have hmem : ∀ {a v}, (a, v) ∈ c.outRegs out → (a, v) ∈ (List.finRange 6).flatMap c.outRegs :=
    fun h => List.mem_flatMap.mpr ⟨out, List.mem_finRange out, h⟩
  obtain ⟨h8, h16⟩ := outRegs_mem c out side
  exact ⟨Registers.last_of_mem hn (hmem h8), Registers.last_of_mem hn (hmem h16)⟩

/-- A replay leaves the words of the cache: DIM is engaged after the masters are written without. -/
theorem last_resumeRegs_word (c : Chip) (out : Out) (side : Side) :
    last (resumeRegs c) (reg8 out side) = some (c.word8 out side) ∧
      last (resumeRegs c) (reg16 out side) = some (c.word16 out side) := by
  -- The masters are replayed as if DIM were off.
  have hplain : replayMasters c = (List.finRange 6).flatMap ({ c with dim := false } : Chip).outRegs := by
    refine List.flatMap_congr fun o _ => ?_
    rw [Chip.outRegs, Bool.and_false]
  obtain ⟨h8, h16⟩ := last_allRegs { c with dim := false } out side
  rw [last_resumeRegs_master (reg8_isMaster out side), last_resumeRegs_master (reg16_isMaster out side),
    hplain, Registers.last_append, Registers.last_append, h8, h16]
  cases hd : c.dim with
  | false =>
    have hc : ({ c with dim := false } : Chip) = c := by rw [← hd]
    rw [hc]
    exact ⟨rfl, rfl⟩
  -- With DIM engaged the second output is written once more, attenuated.
  | true =>
    have hdim : dimRegs true c = c.outRegs 1 ++ dimFlagRegs true := by
      rw [Chip.outRegs, hd]
      rfl
    have hflag := (dimFlagRegs_misses true).mono fun _ => Reg.isMixer_of_isMaster
    rw [if_pos rfl, hdim, Registers.last_append, Registers.last_append,
      hflag.last_eq_none (reg8_isMaster out side), hflag.last_eq_none (reg16_isMaster out side),
      Option.none_or, Option.none_or]
    by_cases ho : out = 1
    · subst ho
      obtain ⟨hs8, hs16⟩ := last_outRegs_self c 1 side
      rw [hs8, hs16]
      exact ⟨rfl, rfl⟩
    -- The other outputs have the same words with DIM and without.
    · obtain ⟨hn8, hn16⟩ := last_outRegs_ne ho side (c.muted 1) (1 = (1 : Out) && c.dim) (c.master 1 0)
        (c.master 1 1)
      have hwords : ({ c with dim := false } : Chip).word8 out side = c.word8 out side ∧
          ({ c with dim := false } : Chip).word16 out side = c.word16 out side := by
        refine words_congr ?_ ?_ ?_ side
        · rfl
        · rw [decide_eq_false ho, Bool.false_and, Bool.false_and]
        · rfl
      rw [Chip.outRegs, hn8, hn16, hwords.1, hwords.2]
      exact ⟨rfl, rfl⟩

/-- A resume that gets through writes the masters of all outputs. -/
theorem resume_advances {w w' : World} (hl : Live w) (hd : w.chip.DimSaved) {jiffies : ℤ} {a : Unit}
    (h : babyfaceResume jiffies w = (.ok a, w')) (click : Out → Bool) : Advances click w w' := by
  have hR : Bus.Framing fun _ _ : Chip => True := ⟨fun _ => trivial, fun _ _ => trivial⟩
  have hframes : Keeps (fun _ _ => True) (babyfaceResume jiffies) :=
    babyfaceResume_keeps hR (fun _ _ _ _ _ _ _ => trivial) (fun _ => trivial) (fun _ => trivial)
      (fun _ _ => trivial) fun _ => trivial
  have hl' := hframes.live hl
  rw [h] at hl'
  unfold babyfaceResume at h
  obtain ⟨_, w₁, h₁, h⟩ := Bus.M.bind_eq_ok h
  obtain ⟨hc, vs, hvs, hw⟩ := bfResumeLocked_run hd h₁
  cases h
  -- The EQ's blocks come after the registers, and are no masters.
  have heq : Avoids (fun a => Reg.isMaster a = true) vs := fun x hx => by
    obtain ⟨ch, b, rfl⟩ := hvs x hx
    exact Bool.false_ne_true
  have hcov : Covers w.chip.quiet w.chip.quiet click (resumeRegs w.chip.quiet ++ vs) := by
    refine ⟨fun out side => .inl ?_, fun out side => .inl ?_⟩
    · rw [Registers.last_append, heq.last_eq_none (reg16_isMaster out side), Option.none_or]
      exact (last_resumeRegs_word _ out side).2
    · rw [Registers.last_append, heq.last_eq_none (reg8_isMaster out side), Option.none_or]
      exact (last_resumeRegs_word _ out side).1
  exact ⟨hl', _, hw, hcov.congr rfl hc.mixer⟩

/-! ## Every run -/

/-- What holds of a watched card at all times. -/
structure Watch.Sound (m : Watch) : Prop where
  live : Live m.w
  chip : m.w.chip.Sound
  agrees : m.Agrees

/-- The wheel and the resync keep what a new master keeps. -/
theorem wheelFrame_sound : WheelFrame (fun c d : Chip => c.Sound → d.Sound) fun _ => True :=
  ⟨Bus.Framing.keeps _, fun _ _ h => ⟨h.dim, h.slope⟩, fun _ _ => trivial, fun _ _ => trivial⟩

/-- Every step of such a run advances the masters. -/
theorem MasterStep.advances {m m' : Watch} (hs : MasterStep m m') (hl : Live m.w)
    (hd : m.w.chip.DimSaved) :
    ∃ w' click, m' = m.after w' click ∧ Advances click m.w w' := by
  cases hs with
  | put k x hb => exact ⟨_, _, rfl, put_advances k x hb hl hd _⟩
  | outWheel delta now => exact ⟨_, _, rfl, outWheel_advances hl delta now⟩
  | balanceWheel delta => exact ⟨_, _, rfl, balanceWheel_advances hl delta _⟩
  | resync now => exact ⟨_, _, rfl, resync_advances hl now _⟩
  | remute h => exact ⟨_, _, rfl, remute_advances hl h _⟩
  | resume h => exact ⟨_, _, rfl, resume_advances hl hd h _⟩
  | other h he => exact ⟨_, _, rfl, hl, [], (List.append_nil _).symm, .silent _ h⟩

/-- The invariant of the cache holds along the run. -/
theorem MasterStep.chip_sound {m m' : Watch} (hs : MasterStep m m') (h : m.w.chip.Sound) :
    m'.w.chip.Sound := by
  have hm : ∀ out l r (c : Chip), c.Sound → (cacheMaster out l r c).Sound :=
    fun out l r _ hc => cacheMaster_sound out l r hc
  -- Each step is a stage whose frame keeps the invariant.
  cases hs with
  | put k x hb => exact bfPut_sound k x _ h
  | outWheel delta now =>
    have hk : Keeps _ (bfPanelOutWheel delta now) := bfPanelOutWheel_frames wheelFrame_sound hm
      (fun _ _ _ _ _ _ hc => ⟨hc.dim, hc.slope⟩) delta now
    exact hk.state m.w h
  | balanceWheel delta =>
    have hk : Keeps _ (bfPanelBalanceWheel delta) :=
      bfPanelBalanceWheel_frames wheelFrame_sound hm delta
    exact hk.state m.w h
  | resync now =>
    have hk : Keeps _ (bfPanelOutResync now) := bfPanelOutResync_frames wheelFrame_sound
      (fun _ hc => ⟨hc.dim, hc.slope⟩) now
    exact hk.state m.w h
  | @remute out hmute =>
    have hk : Keeps _ (bfPanelRemute out) := wheelFrame_sound.post8 _ _ _
    exact hk.state m.w h
  | @resume jiffies w' hr =>
    have hstep : CardStep m.w (babyfaceResume jiffies m.w).2 := .resume jiffies m.w
    rw [hr] at hstep
    exact hstep.sound h
  | other hm he => exact h.congr hm fun strip => congrArg (fun e => (e strip).slope_db) he

/-- What is watched is true along the run. -/
theorem MasterRun.sound {m : Watch} (h : MasterRun m) : m.Sound := by
  induction h with
  | @probe st0 reprobe jiffies p w hp =>
    -- Nothing has been written since the probe.
    have hnone : ∀ a : Reg, last (([] : List Xfer).map Xfer.write) a = none := fun _ => rfl
    have hagrees : Watch.Agrees ⟨{ w with wire := [], usb := fun _ => true }, fun _ => false⟩ := {
      high := fun _ _ _ hv => absurd ((hnone _).symm.trans hv) (Option.some_ne_none _).symm
      low := fun _ _ _ _ hv => absurd ((hnone _).symm.trans hv) (Option.some_ne_none _).symm
      saved := hp.sound.dim }
    exact { live := fun _ => rfl, chip := hp.sound, agrees := hagrees }
  | step _ hs ih =>
    obtain ⟨w', click, rfl, hadv⟩ := hs.advances ih.live ih.chip.dim
    obtain ⟨ws, hw, hc⟩ := hadv.writes
    have hchip := hs.chip_sound ih.chip
    exact ⟨hadv.live, hchip, ih.agrees.after hw hc hchip.dim⟩

/-- The volume of an output is put back: the cached steps are those before, and its four registers
were last written with them. -/
structure PutsBack (out : Out) (w w' : World) : Prop where
  master : w'.chip.master = w.chip.master
  high : ∀ side, last (w'.wire.map Xfer.write) (reg16 out side) = some (w'.chip.word16 out side)
  low : ∀ side, last (w'.wire.map Xfer.write) (reg8 out side) = some (w'.chip.word8 out side)

/-- A put that went through leaves the words of the cache in the output whose list it writes. -/
theorem putsBack_of_writes {out : Out} {w w' : World} {c : Chip} {vs : List (Reg × Datum)}
    (hw : w'.wire.map Xfer.write = w.wire.map Xfer.write ++ (c.outRegs out ++ vs))
    (hvs : Avoids (fun a => Reg.isMaster a = true) vs) (hc : w'.chip.toMixer = c.toMixer)
    (hm : c.master = w.chip.master) : PutsBack out w w' := by
  have hwords : ∀ side, w'.chip.word8 out side = c.word8 out side ∧
      w'.chip.word16 out side = c.word16 out side := by
    intro side
    unfold Chip.word8 Chip.word16
    rw [hc]
    exact ⟨rfl, rfl⟩
  have hmaster : w'.chip.master = c.master := congrArg Mixer.master hc
  refine ⟨hmaster.trans hm, fun side => ?_, fun side => ?_⟩
  · rw [hw, Registers.last_append, Registers.last_append, hvs.last_eq_none (reg16_isMaster out side),
      (last_outRegs_self c out side).2, (hwords side).2]
    rfl
  · rw [hw, Registers.last_append, Registers.last_append, hvs.last_eq_none (reg8_isMaster out side),
      (last_outRegs_self c out side).1, (hwords side).1]
    rfl

/-- A changed mute puts the volume back, or takes it away for good. -/
theorem mute_putsBack {w : World} (hl : Live w) (hd : w.chip.DimSaved) (k : Clock) (x : ElemValue)
    (out : Out) (h : (bfPut k x (.mute out) w).1 = .ok 1) :
    PutsBack out w (bfPut k x (.mute out) w).2 := by
  have hset : (Ctl.mute out).setting x = some (.mute out (x.value 0 = 0)) := rfl
  have hh : Handles (bfPut k x (.mute out)) _ _ _ _ _ := bfPut_handles k hset
  obtain ⟨-, hp⟩ | ⟨hsame, w', hp, hc, hw, -⟩ := hh.run_live hl
  · rw [hp] at h
    cases h
  · have hregs := Setting.writes_eq hset rfl (c := w.chip.quiet) hd hsame
    rw [hp]
    rw [hregs] at hw
    refine putsBack_of_writes (c := Setting.cache (.mute out (x.value 0 = 0)) w.chip.quiet)
      (hw.trans ?_) .nil (by rw [Chip.quiet_eq hc]) rfl
    rw [List.append_nil]
    rfl

/-- A changed DIM puts the volume of output 1 back, or lowers it. -/
theorem dim_putsBack {w : World} (hl : Live w) (hd : w.chip.DimSaved) (k : Clock) (x : ElemValue)
    (h : (bfPut k x .dim w).1 = .ok 1) : PutsBack 1 w (bfPut k x .dim w).2 := by
  have hset : Ctl.dim.setting x = some (.dim (x.value 0 ≠ 0)) := rfl
  have hh : Handles (bfPut k x .dim) _ _ _ _ _ := bfPut_handles k hset
  obtain ⟨-, hp⟩ | ⟨hsame, w', hp, hc, hw, -⟩ := hh.run_live hl
  · rw [hp] at h
    cases h
  · have hregs := Setting.writes_eq hset rfl (c := w.chip.quiet) hd hsame
    rw [hp]
    rw [hregs] at hw
    exact putsBack_of_writes hw ((dimFlagRegs_misses _).mono fun _ => Reg.isMixer_of_isMaster)
      (by rw [Chip.quiet_eq hc]) rfl

/-- In every run the masters last written agree with the cache, DIM's restore point is the volume of
output 1, and a mute or DIM that changes puts the cached volume back. -/
theorem masters_match_wire {m : Watch} (h : MasterRun m) :
    m.Agrees ∧
      (∀ k x out, (bfPut k x (.mute out) m.w).1 = .ok 1 →
        PutsBack out m.w (bfPut k x (.mute out) m.w).2) ∧
      ∀ k x, (bfPut k x .dim m.w).1 = .ok 1 → PutsBack 1 m.w (bfPut k x .dim m.w).2 := by
  have hs := h.sound
  exact ⟨hs.agrees, mute_putsBack hs.live hs.chip.dim, dim_putsBack hs.live hs.chip.dim⟩

/-- A new card, watched from its probe on. -/
def watchedCard : Watch := ⟨{ freshCard with wire := [], usb := fun _ => true }, fun _ => false⟩

/-- The card after a put of one value for all channels. -/
def Watch.put (m : Watch) (v : ℤ) (ctl : Ctl) : Watch :=
  m.after (bfPut clock0 ⟨fun _ => v, 0⟩ ctl m.w).2 fun _ => false

/-- The first output is put to a volume, DIM lowers the Phones, and the third output is muted. -/
def putWatch : Watch := ((watchedCard.put 100 (.master 0)).put 1 .dim).put 0 (.mute 2)

/-- The OUT wheel is turned up by two clicks: the firmware moves the 8-bit registers by itself. -/
def turnedWatch : Watch := putWatch.after (bfPanelOutWheel 2 1000000000 putWatch.w).2
  fun out => out = bfPanelOutPair putWatch.w.chip

/-- With the wheel at rest, the resync writes these registers. -/
def restedWatch : Watch :=
  turnedWatch.after (bfPanelOutResync 1200000000 turnedWatch.w).2 fun _ => false

/-- A resume writes all masters again. -/
def resumedWatch : Watch := restedWatch.after (babyfaceResume 5000 restedWatch.w).2 fun _ => false

/-- A card on which all writers have been at work: the wheel has left a volume of its own, and after the resume
the mute of the third output and DIM put the volumes back. -/
theorem masters_match_wire_resumed :
    (turnedWatch.clicked 0 = true ∧ restedWatch.clicked 0 = false ∧ resumedWatch.w.chip.master 0 0 = 109) ∧
      (turnedWatch.Agrees ∧ resumedWatch.Agrees) ∧
      PutsBack 2 resumedWatch.w (bfPut clock0 ⟨fun _ => 1, 0⟩ (.mute 2) resumedWatch.w).2 ∧
      PutsBack 1 resumedWatch.w (bfPut clock0 ⟨fun _ => 0, 0⟩ .dim resumedWatch.w).2 := by
  have hput : MasterRun putWatch :=
    (((MasterRun.probe freshCard_probed).step (.put _ _ rfl)).step (.put _ _ rfl)).step (.put _ _ rfl)
  have hturned : MasterRun turnedWatch := hput.step (.outWheel _ _)
  obtain ⟨_, hresume⟩ := eq_of_isOk (x := babyfaceResume 5000 restedWatch.w) (by decide +kernel)
  have hresumed : MasterRun resumedWatch := (hturned.step (.resync _)).step (.resume hresume)
  obtain ⟨hagrees, hmute, hdim⟩ := masters_match_wire hresumed
  exact ⟨by decide +kernel, ⟨(masters_match_wire hturned).1, hagrees⟩, hmute _ _ _ (by decide +kernel),
    hdim _ _ (by decide +kernel)⟩

end BabyfacePro
