import BabyfacePro.Core.Clock
import BabyfacePro.Core.Rebuilt
import BabyfacePro.Panel.Latch

/-!
# The device mirrors the cache

Every register that a control stands for has a word in the cache: the masters, the crosspoints under their
overlays, the FX send, the loopback map, the preamp, DIM, the gains and the EQ blocks. The controls share
these registers, and the panel's displays share some of them too: a put of one must not take another's word
away. While no transfer fails and the panel's wheel and MIX are left alone, a register that agrees with the cache
goes on to: over puts, polls, rate changes, session starts and resumes, in any order (`mirror_kept`). A resume
makes them all agree (`mirror_resumed`).
-/

namespace BabyfacePro

open Registers (last Avoids Follows)
open Bus.M (modify)

/-! ## The registers and their words -/

/-- The registers that the cache stands for. -/
inductive Mirrored where
  | master8 (out : Out) (side : Side)
  | master16 (out : Out) (side : Side)
  | point (out : Out) (src : Src) (side : Side)
  | fx (side : Side)
  | loopback (ch : Fin BF_LOOPBACK_CHANNELS)
  | preamp (f : PreampReg)
  | dim
  | gain (mic : Mic)
  | eq (strip : Mic) (side : Side)

/-- The register itself. -/
def Mirrored.reg : Mirrored → Reg
  | .master8 out side => reg8 out side
  | .master16 out side => reg16 out side
  | .point out src side => pointReg out src side
  | .fx side => fxReg side
  | .loopback ch => .ctl BF_REQ_LOOPBACK ch
  | .preamp f => f.reg
  | .dim => dimReg
  | .gain mic => .ctl BF_REQ_GAIN (BF_REG_GAIN + mic)
  | .eq strip side => .eq (eqCh strip side)

/-- The word that the cache has for it. -/
def Mirrored.datum (c : Chip) : Mirrored → Datum
  | .master8 out side => c.word8 out side
  | .master16 out side => c.word16 out side
  | .point out src side => .word (c.shown out src side)
  | .fx _ => .word c.fx_send
  | .loopback ch => .word (if ∃ out : Out, c.loopback out ∧ ch.val / 2 = out.val then 0x0001 else 0x0000)
  | .preamp f => f.datum c
  | .dim => .word (if c.dim then 0x2000 else 0x0000)
  | .gain mic => .word ((bfGainRaw mic (c.gain mic).toNat).setWidth 16)
  | .eq strip side => .block (((c.eq strip).recompute c.eqFs).block (eqCh strip side))

/-- What a register is for. -/
inductive Kind where
  | master
  | xpoint
  | loopback
  | preamp
  | dim
  | gain
  | eq
  /-- The cold init's clear. -/
  | clear
  /-- The interface, the clock and the session. -/
  | host
  deriving DecidableEq

/-- What the registers of the device are for. -/
def Reg.kind : Reg → Kind
  | .ctl req idx =>
    -- The gains lie below the 8-bit masters, the crosspoints below the 16-bit ones.
    if req = BF_REQ_GAIN then if idx < BF_REG_MASTER_8 then .gain else .master
    else if req = BF_REQ_CROSSPOINT then if idx < BF_REG_MASTER_16 then .xpoint else .master
    else if req = BF_REQ_LOOPBACK then .loopback
    else if req = BF_REQ_PREAMP then if idx = 0x2000 then .dim else .preamp
    else if req = BF_REQ_PREAMP_COMMIT then .preamp
    else if req = BF_REQ_REG_CLEAR then .clear
    else .host
  | .eq _ => .eq
  | .iface => .host

/-- The kinds of registers that a put writes. -/
def Setting.writesKind (s : Setting) (k : Kind) : Bool :=
  match s with
  | .master .. | .mute .. => k = .master
  | .xpoint .. | .phase .. | .split .. | .trim .. | .ms _ | .width _ | .fxSend _ => k = .xpoint
  | .preampBit .. | .refLevel _ | .an12 _ | .link _ => k = .preamp
  | .gain .. => k = .gain
  | .loopback .. => k = .loopback
  | .dim _ => k = .master || k = .dim
  | .pitch _ | .clock _ | .optical _ => k = .host
  | .eq .. => k = .eq

/-- All writes of the list are to registers of the kind. -/
abbrev AllOf (k : Kind) (ws : List (Reg × Datum)) : Prop := Avoids (fun a => a.kind ≠ k) ws

/-- A register of a kind is not of another one. -/
theorem of_kind {a : Reg} {k : Kind} (h : a.kind = k) : ¬ a.kind ≠ k := not_not.mpr h

/-- The masters of an output are masters. -/
theorem outRegs_kind (out : Out) (muted dim : Bool) (l r : U16) : AllOf .master (outRegs out muted dim l r) := by
  have h : ∀ out : Out, ∀ a ∈ (masterRegs out 0 0 0 0).map Prod.fst, a.kind = .master := by decide
  intro w hw
  have hmem : w.1 ∈ (outRegs out muted dim l r).map Prod.fst := List.mem_map_of_mem hw
  exact of_kind (h out w.1 hmem)

/-- A low index of the crosspoint request is a crosspoint. -/
theorem xreg_kind {idx : ℕ} (v : U16) (h : idx < BF_REG_MASTER_16) : (xreg idx v).1.kind = .xpoint := by
  have hreq : ¬ BF_REQ_CROSSPOINT = BF_REQ_GAIN := by decide
  show (Reg.ctl BF_REQ_CROSSPOINT idx).kind = .xpoint
  rw [Reg.kind, if_neg hreq, if_pos rfl, if_pos h]

/-- A pair of crosspoints. -/
theorem xpointRegs_kind (out : Out) (src : Src) (l r : U16) : AllOf .xpoint (xpointRegs out src l r) := by
  obtain ⟨hl, hr⟩ := xpoint_lt out src
  have h : 0x138 < BF_REG_MASTER_16 := by decide
  exact .cons (of_kind (xreg_kind _ (hl.trans h))) (.cons (of_kind (xreg_kind _ (hr.trans h))) .nil)

/-- The crosspoints of a phase. -/
theorem phaseRegs_kind (mic : Mic) (invert : Bool) (c : Chip) : AllOf .xpoint (phaseRegs mic invert c) :=
  .map fun out _ => of_kind (xreg_kind _ ((xpoint_lt out mic.src).1.trans (by decide)))

/-- The crosspoints of the MS processing. -/
theorem msPutRegs_kind (on : Bool) (c : Chip) : AllOf .xpoint (msPutRegs on c) := by
  unfold msPutRegs
  split
  · exact .append (xpointRegs_kind 1 1 0 0) (xpointRegs_kind 0 1 0 0)
  · exact .append (xpointRegs_kind _ _ _ _) (xpointRegs_kind _ _ _ _)

/-- The crosspoints of the width. -/
theorem widthRegs_kind (w : ℤ) : AllOf .xpoint (widthRegs w) :=
  .append (xpointRegs_kind 0 0 _ _) <| .append (xpointRegs_kind 0 1 _ _) <|
    .append (xpointRegs_kind 1 0 _ _) (xpointRegs_kind 1 1 _ _)

/-- The FX send is among the crosspoints. -/
theorem fxRegs_kind (v : U16) : AllOf .xpoint (fxRegs v) :=
  .cons (of_kind (xreg_kind _ (by decide))) (.cons (of_kind (xreg_kind _ (by decide))) .nil)

/-- The commit belongs to the preamp. -/
theorem commitRegs_kind (c : Chip) : AllOf .preamp (commitRegs c) := .cons (of_kind rfl) .nil

/-- A gain is a gain. -/
theorem gainRegs_kind (mic : Mic) (db : ℤ) : AllOf .gain (gainRegs mic db) := by
  have h : ∀ mic : Mic, (Reg.ctl BF_REQ_GAIN (BF_REG_GAIN + mic)).kind = .gain := by decide
  exact .cons (of_kind (h mic)) .nil

/-- The settings word is the host's. -/
theorem settingsRegs_kind (c : Chip) : AllOf .host (settingsRegs c) := .cons (of_kind rfl) .nil

/-- A strip's blocks are those of the EQ. -/
theorem eqRegs_kind (strip : Mic) (e : EqChannel) : AllOf .eq (eqRegs strip e) := .map fun _ _ => of_kind rfl

/-- A put writes registers of its kinds only. -/
theorem Setting.writes_kind (s : Setting) (c : Chip) :
    Avoids (fun a => s.writesKind a.kind = false) (s.writes c) := by
  have hone : ∀ {k : Kind} {ws : List (Reg × Datum)}, AllOf k ws → s.writesKind k = true →
      Avoids (fun a => s.writesKind a.kind = false) ws := fun h hk => h.mono fun a ha he => by
    rw [he, hk] at ha
    cases ha
  cases s with
  | master out l r => exact hone (outRegs_kind _ _ _ _ _) rfl
  | mute out muted => exact hone (outRegs_kind _ _ _ _ _) rfl
  | xpoint out src l r => exact hone (xpointRegs_kind _ _ _ _) rfl
  | phase mic invert => exact hone (phaseRegs_kind _ _ _) rfl
  | split pb on => exact hone (xpointRegs_kind _ _ _ _) rfl
  | trim mic db => exact hone (.append (xpointRegs_kind _ _ _ _) (xpointRegs_kind _ _ _ _)) rfl
  | preampBit bit on => exact hone (.cons (of_kind rfl) (commitRegs_kind _)) rfl
  | refLevel item => exact hone (.cons (of_kind rfl) (commitRegs_kind _)) rfl
  | gain mic db => exact hone (gainRegs_kind _ _) rfl
  | pitch p => exact hone (.append (.map fun _ _ => of_kind rfl) (settingsRegs_kind _)) rfl
  | loopback out on => exact hone (.map fun _ _ => of_kind rfl) rfl
  | an12 on => exact hone (.cons (of_kind rfl) (commitRegs_kind _)) rfl
  | clock on => exact hone (settingsRegs_kind _) rfl
  | optical spdif => exact hone (settingsRegs_kind _) rfl
  | link linked => exact hone (.cons (of_kind rfl) (commitRegs_kind _)) rfl
  | ms on => exact hone (msPutRegs_kind _ _) rfl
  | dim on =>
    -- The Phones master, and DIM's own flag.
    have hflag : AllOf .dim (dimFlagRegs on) := .cons (of_kind rfl) .nil
    exact .append (hone (outRegs_kind _ _ _ _ _) rfl) (hone hflag rfl)
  | width w => exact hone (widthRegs_kind _) rfl
  | fxSend v => exact hone (fxRegs_kind _) rfl
  | eq strip p v => exact hone (eqRegs_kind _ _) rfl

/-- The kind of a mirrored register. -/
def Mirrored.kind : Mirrored → Kind
  | .master8 .. | .master16 .. => .master
  | .point .. | .fx _ => .xpoint
  | .loopback _ => .loopback
  | .preamp _ => .preamp
  | .dim => .dim
  | .gain _ => .gain
  | .eq .. => .eq

/-- What is mirrored of the EQ is a channel's block. -/
theorem Mirrored.eq_of_kind {i : Mirrored} (h : i.kind = .eq) : ∃ strip side, i = .eq strip side := by
  cases i with
  | eq strip side => exact ⟨strip, side, rfl⟩
  | _ => cases h

/-- A mirrored register has the kind of what it mirrors. -/
theorem Mirrored.reg_kind (i : Mirrored) : i.reg.kind = i.kind := by
  cases i with
  | master8 out side => revert out side; decide
  | master16 out side => revert out side; decide
  | point out src side =>
    obtain ⟨hl, hr⟩ := xpoint_lt out src
    have h : 0x138 < BF_REG_MASTER_16 := by decide
    obtain rfl | rfl := left_or_right side
    · exact xreg_kind 0 (hl.trans h)
    · exact xreg_kind 0 (hr.trans h)
  | fx side => revert side; decide
  | loopback ch => rfl
  | preamp f => cases f <;> rfl
  | dim => rfl
  | gain mic => revert mic; decide
  | eq strip side => rfl

/-- A put changes the words of its kinds only. -/
theorem Mirrored.datum_cache {s : Setting} {i : Mirrored} (h : s.writesKind i.kind = false) (c : Chip) :
    i.datum (s.cache c) = i.datum c := by
  cases s <;> cases i <;> first | rfl | cases h

/-! ## What a put leaves -/

section Put

variable {ctl : Ctl} {x : ElemValue} {s : Setting} {c : Chip}

/-- The settings of masters and crosspoints come from the controls of theirs. -/
theorem Setting.writesKind_ctl (hs : ctl.setting x = some s) :
    s.writesKind .master = ctl.isMasterPut ∧ s.writesKind .xpoint = ctl.isXpointPut := by
  cases ctl <;> simp only [Ctl.setting, Option.ite_none_right_eq_some, Option.some.injEq, reduceCtorEq] at hs <;>
    obtain ⟨-, rfl⟩ := hs <;> exact ⟨rfl, rfl⟩

/-- A word that is written over an old one, or the old one. -/
theorem follows_of_or {o : Option Datum} {u v : Datum} (h : o.or (some u) = some v) :
    o = some v ∨ o = none ∧ v = u := by
  cases o with
  | none => exact .inr ⟨rfl, (Option.some.inj h).symm⟩
  | some w => exact .inl h

/-- The replay of the crosspoints ends with the FX send. -/
theorem last_replayXpoints_fx (c : Chip) (side : Side) :
    last (replayXpoints c) (fxReg side) = some (.word c.fx_send) := by
  have hno : NoPoint (fxReg side) := fun out src s he => pointReg_ne_fxReg out src s side he.symm
  have hfx : last (fxRegs c.fx_send) (fxReg side) = some (.word c.fx_send) := by
    obtain rfl | rfl := left_or_right side <;> rfl
  rw [last_replayXpoints_off hno, hfx, Option.some_or]

/-- The loopback map has a word for each channel. -/
theorem last_loopbackMap (c : Chip) (ch : Fin BF_LOOPBACK_CHANNELS) :
    last (loopbackMap c) (Mirrored.loopback ch).reg = some ((Mirrored.loopback ch).datum c) := by
  have hn : ((loopbackMap c).map Prod.fst).Nodup := by
    have haddr : ((loopbackMap {}).map Prod.fst).Nodup := by decide
    have hsame : (loopbackMap c).map Prod.fst = (loopbackMap {}).map Prod.fst := by
      simp only [loopbackMap, List.map_map]
      rfl
    rw [hsame]
    exact haddr
  exact Registers.last_of_mem hn (List.mem_map.mpr ⟨ch, List.mem_range.mpr ch.isLt, rfl⟩)

/-- A gain's put writes the gain that it caches. -/
theorem gain_follows {mic : Mic} {db : ℤ} (hs : ctl.setting x = some (.gain mic db)) (mic' : Mic) :
    last (gainRegs mic db) (Mirrored.gain mic').reg =
        some ((Mirrored.gain mic').datum ((Setting.gain mic db).cache c)) ∨
      last (gainRegs mic db) (Mirrored.gain mic').reg = none ∧
        (Mirrored.gain mic').datum ((Setting.gain mic db).cache c) = (Mirrored.gain mic').datum c := by
  have hw : within db 0 (bfGainMaxDb mic) = true := by
    cases ctl <;> simp only [Ctl.setting, Option.ite_none_right_eq_some, Option.some.injEq, reduceCtorEq,
      Setting.gain.injEq, and_false] at hs
    obtain ⟨hw, rfl, rfl⟩ := hs
    exact hw
  -- The gain that is put holds the code of its new level.
  by_cases hm : mic' = mic
  · subst hm
    left
    show last (gainRegs mic' db) _ = some (.word ((bfGainRaw mic' (Function.update c.gain mic' (.ofInt 8 db)
      mic').toNat).setWidth 16))
    rw [Function.update_self, gain_toNat hw, gainRegs, word, Mirrored.reg, Registers.last_singleton, if_pos rfl]
  -- The other gains are neither cached nor written.
  · right
    refine ⟨?_, ?_⟩
    · have hne : ¬ (Mirrored.gain mic').reg = Reg.ctl BF_REQ_GAIN (BF_REG_GAIN + mic) := fun he =>
        hm (Fin.ext (Nat.add_left_cancel (Reg.ctl.inj he).2))
      rw [gainRegs, word, Registers.last_singleton, if_neg hne]
    · show Datum.word ((bfGainRaw mic' (Function.update c.gain mic (.ofInt 8 db) mic').toNat).setWidth 16) = _
      rw [Function.update_of_ne hm]
      rfl

/-- An EQ put sends the strip's blocks of the words that it computes. -/
theorem eq_follows {strip : Mic} {p : EqParam} {v : ℤ} (strip' : Mic) (side : Side) :
    last (eqRegs strip ((cacheEq strip p v c).eq strip)) (Mirrored.eq strip' side).reg =
        some ((Mirrored.eq strip' side).datum (cacheEq strip p v c)) ∨
      last (eqRegs strip ((cacheEq strip p v c).eq strip)) (Mirrored.eq strip' side).reg = none ∧
        (Mirrored.eq strip' side).datum (cacheEq strip p v c) = (Mirrored.eq strip' side).datum c := by
  by_cases hs : strip' = strip
  · subst hs
    left
    rw [Mirrored.reg, last_eqRegs_self]
    -- Computing the words again from the same parameters changes nothing.
    simp only [Mirrored.datum, cacheEq, recomputeStrip, Function.update_self]
    rfl
  · right
    refine ⟨last_eqRegs_other hs side _, ?_⟩
    have hother : (cacheEq strip p v c).eq strip' = c.eq strip' := by
      simp only [cacheEq, recomputeStrip, Function.update_of_ne hs]
    show Datum.block ((((cacheEq strip p v c).eq strip').recompute c.eqFs).block _) = _
    rw [hother]
    rfl

/-- A put under no overlay brings every register from the old cache's word to the new one's: it writes the word,
or leaves the register and its word alone. -/
theorem Setting.mirrors (hs : ctl.setting x = some s) (hd : c.DimSaved) (hc : s.cached c = false)
    (hclear : s.Clear c) :
    Follows Mirrored.reg (Mirrored.datum c) (Mirrored.datum (s.cache c)) (s.writes c) := by
  intro i
  obtain ⟨hmaster, hxpoint⟩ := Setting.writesKind_ctl hs
  cases hk : s.writesKind i.kind with
  | false =>
    refine .inr ⟨(s.writes_kind c).last_eq_none ?_, Mirrored.datum_cache hk c⟩
    rw [i.reg_kind]
    exact hk
  | true =>
    cases i with
    | master8 out side =>
      have hcov := Setting.covers hs (hmaster.symm.trans hk) hd hc fun _ => false
      obtain hl | ⟨hn, hsame⟩ := hcov.low out side
      · exact .inl hl
      · exact .inr ⟨hn, hsame.resolve_left Bool.false_ne_true⟩
    | master16 out side =>
      exact (Setting.covers hs (hmaster.symm.trans hk) hd hc fun _ => false).high out side
    | point out src side =>
      -- The put's writes turn the old cache's replay into the new one's.
      have h := Setting.replaces hs (hxpoint.symm.trans hk) hclear (pointReg out src side)
      rw [last_replayXpoints_point, last_replayXpoints_point] at h
      exact follows_of_or h
    | fx side =>
      have h := Setting.replaces hs (hxpoint.symm.trans hk) hclear (fxReg side)
      rw [last_replayXpoints_fx, last_replayXpoints_fx] at h
      exact follows_of_or h
    | preamp f => exact s.follows c f
    | loopback ch =>
      -- The whole map is written, whichever output the put is for.
      cases s <;> try cases hk
      rename_i out on
      have hw : loopbackRegs out on = loopbackMap (cacheLoopback out on c) := loopbackRegs_eq out on c
      left
      show last (loopbackRegs out on) _ = _
      rw [hw]
      exact last_loopbackMap _ ch
    | dim =>
      cases s <;> try cases hk
      left
      exact (Registers.last_append _ _ _).trans rfl
    | gain mic =>
      cases s <;> try cases hk
      exact gain_follows hs mic
    | eq strip side =>
      cases s <;> try cases hk
      exact eq_follows strip side

end Put

/-! ## The steps of a run -/

/-- The device agrees with the cache on a register. -/
def Agree (d : Reg → Datum) (w : World) (i : Mirrored) : Prop := contents d w.wire i.reg = i.datum w.chip

/-- The part of the cache that the words depend on. -/
def Chip.wordView (c : Chip) : Mixer × (Mic → EqChannel) × ℕ := (c.toMixer, c.eq, c.rate)

/-- The words but the EQ's are the mixer's. -/
theorem Mirrored.datum_mixer {c c' : Chip} (h : c'.toMixer = c.toMixer) {i : Mirrored} (hk : i.kind ≠ .eq) :
    i.datum c' = i.datum c := by
  obtain ⟨_, _, _, _, _⟩ := c'
  cases h
  cases i with
  | eq strip side => exact absurd rfl hk
  | _ => rfl

/-- Two caches with the same words mirror the same. -/
theorem Mirrored.datum_congr {c c' : Chip} (h : c'.wordView = c.wordView) (i : Mirrored) :
    i.datum c' = i.datum c := by
  simp only [Chip.wordView, Prod.mk.injEq] at h
  obtain ⟨hm, he, hr⟩ := h
  by_cases hk : i.kind = .eq
  · obtain ⟨strip, side, rfl⟩ := Mirrored.eq_of_kind hk
    have hfs : c'.eqFs = c.eqFs := by unfold Chip.eqFs; rw [hr]
    rw [Mirrored.datum, Mirrored.datum, he, hfs]
  · exact Mirrored.datum_mixer hm hk

/-- Writes of other kinds clear nothing. -/
theorem misses_clear {ws : List (Reg × Datum)} (h : Avoids (fun a => a.kind = .clear) ws) :
    Misses Reg.isClear ws := h.mono fun a ha => by
  cases a with
  | ctl req idx =>
    obtain rfl : req = BF_REQ_REG_CLEAR := of_decide_eq_true ha
    rfl
  | iface => cases ha
  | eq ch => cases ha

/-- Writes that follow a change of the cache, with no clear among them, keep the agreement. -/
theorem Agree.follows {d : Reg → Datum} {w w' : World} {ws : List (Reg × Datum)} {i : Mirrored}
    (h : Agree d w i) (hw : w'.wire.map Xfer.write = w.wire.map Xfer.write ++ ws)
    (hclear : Avoids (fun a => a.kind = .clear) ws)
    (hf : Follows Mirrored.reg (Mirrored.datum w.chip) (Mirrored.datum w'.chip) ws) : Agree d w' i := by
  unfold Agree at h ⊢
  rw [contents_eq] at h ⊢
  rw [hw, List.map_append, map_effect (misses_clear hclear)]
  exact hf.getD_append h

/-- Writes of one kind leave the registers of the others. -/
theorem last_off_kind {k : Kind} {ws : List (Reg × Datum)} (h : AllOf k ws) {i : Mirrored} (hi : i.kind ≠ k) :
    last ws i.reg = none := by
  have hoff : Avoids (fun a => a.kind = i.kind) ws := h.mono fun a ha => by rw [ha]; exact hi
  exact hoff.last_eq_none i.reg_kind

/-- The settings word is not mirrored. -/
theorem Mirrored.kind_ne_host (i : Mirrored) : i.kind ≠ .host := by
  cases i <;> exact Kind.noConfusion

/-- A register that the cache has no word for, and that clears nothing. -/
def Reg.Unmirrored (a : Reg) : Prop := a.kind ≠ .clear ∧ ∀ i : Mirrored, i.reg ≠ a

/-- A register of the host is not mirrored. -/
theorem Reg.unmirrored_of_host {a : Reg} (h : a.kind = .host) : a.Unmirrored := by
  refine ⟨by rw [h]; decide, fun i he => i.kind_ne_host ?_⟩
  rw [← i.reg_kind, he, h]

/-- With no failure to come, and at a rate that the device has, what agreed with the cache goes on to. -/
def Mirrors (w w' : World) : Prop :=
  Live w → (∃ r ∈ bfRates, r.rate = w.chip.rate) →
    Live w' ∧ (∃ r ∈ bfRates, r.rate = w'.chip.rate) ∧ ∀ d i, Agree d w i → Agree d w' i

/-- Two parts that keep the mirror keep it together. -/
theorem mirrors_linking : Bus.Linking Mirrors where
  refl _ hl hrate := ⟨hl, hrate, fun _ _ hi => hi⟩
  trans := by
    intro w w₁ w₂ h h' hl hrate
    obtain ⟨hl₁, hrate₁, hkeep⟩ := h hl hrate
    obtain ⟨hl₂, hrate₂, hkeep'⟩ := h' hl₁ hrate₁
    exact ⟨hl₂, hrate₂, fun d i hi => hkeep' d i (hkeep d i hi)⟩

section Steps

variable {w w' : World} {ws : List (Reg × Datum)}

/-- Writes that follow a change of the cache at the same rate. -/
theorem Mirrors.of_follows (hl : Live w') (hr : w'.chip.rate = w.chip.rate)
    (hw : w'.wire.map Xfer.write = w.wire.map Xfer.write ++ ws) (hclear : Avoids (fun a => a.kind = .clear) ws)
    (hf : Follows Mirrored.reg (Mirrored.datum w.chip) (Mirrored.datum w'.chip) ws) : Mirrors w w' :=
  fun _ hrate => ⟨hl, by rwa [hr], fun _ _ hi => hi.follows hw hclear hf⟩

/-- Writes elsewhere, while the words stay as they are. -/
theorem Mirrors.of_view (hl : Live w') (hv : w'.chip.wordView = w.chip.wordView)
    (hw : w'.wire.map Xfer.write = w.wire.map Xfer.write ++ ws) (hun : ∀ x ∈ ws, x.1.Unmirrored) :
    Mirrors w w' := by
  have hr : w'.chip.rate = w.chip.rate := congrArg (fun v => v.2.2) hv
  have hsame : Mirrored.datum w'.chip = Mirrored.datum w.chip := funext (Mirrored.datum_congr hv)
  refine .of_follows hl hr hw (fun x hx => (hun x hx).1) ?_
  rw [hsame]
  exact .of_avoids fun x hx ⟨i, hi⟩ => (hun x hx).2 i hi

/-- A change of what the words do not depend on. -/
theorem Mirrors.silent (hl : Live w') (hv : w'.chip.wordView = w.chip.wordView) (hw : w'.wire = w.wire) :
    Mirrors w w' :=
  .of_view hl hv (by rw [hw, List.append_nil]) fun _ hx => absurd hx List.not_mem_nil

/-- What changes no word of the cache, and writes nothing that is mirrored. -/
theorem mirrors_of_frames {α : Type} {X : Errno → Prop} {m : Usb α}
    (h : Bus.Frames Xfer.write (fun c c' : Chip => c'.wordView = c.wordView) (fun x => x.1.Unmirrored) X m) :
    Bus.Relates Mirrors m := fun w hl hrate => by
  obtain ⟨ws, hw, hun⟩ := h.wire w
  have hm : Mirrors w (m w).2 := .of_view (h.live hl) (h.state w) hw hun
  exact hm hl hrate

/-- What writes to the host only. -/
theorem mirrors_of_writes {m : Usb Unit} {ws : Chip → List (Reg × Datum)} (h : Writes m ws)
    (hhost : ∀ c, AllOf .host (ws c)) : Bus.Relates Mirrors m := fun w hl hrate => by
  obtain ⟨w', hrun, hsent, hl'⟩ := h.run_live hl
  have hv : w'.chip.wordView = w.chip.wordView := by
    rw [Chip.quiet_eq hsent.chip]
    rfl
  have hm : Mirrors w w' :=
    .of_view hl' hv hsent.wire fun x hx => Reg.unmirrored_of_host (not_not.mp (hhost _ x hx))
  rw [hrun]
  exact hm hl hrate

/-- A put that no overlay covers keeps the mirror. -/
theorem bfPut_mirrors (k : Clock) (x : ElemValue) (ctl : Ctl) (hd : w.chip.DimSaved)
    (hu : ∀ s, ctl.setting x = some s → s.Unshadowed w.chip) : Mirrors w (bfPut k x ctl w).2 := by
  obtain ⟨s, hs, hh⟩ | ⟨pair, rfl⟩ | ⟨-, hr⟩ := bfPut_cases k x ctl
  · intro hl
    obtain ⟨-, hp⟩ | ⟨hsame, w', hp, hc, hw, hl'⟩ := hh.run_live hl
    · -- The value was cached, and nothing is sent.
      rw [hp]
      exact mirrors_linking.refl w hl
    -- A value that is not cached is put under no overlay, by the hypothesis.
    · have hclear : s.Clear w.chip.quiet := by
        rw [Setting.cached_quiet] at hsame
        refine (s.clear_quiet _).mpr ((hu s hs).resolve_left fun hcached => ?_)
        rw [hsame] at hcached
        cases hcached
      have hf : Follows Mirrored.reg (Mirrored.datum w.chip) (Mirrored.datum (s.cache w.chip.quiet))
          (s.writes w.chip.quiet) := Setting.mirrors hs hd hsame hclear
      have hdatum : Mirrored.datum w'.chip = Mirrored.datum (s.cache w.chip.quiet) := by
        rw [Chip.quiet_eq hc]
        rfl
      have hrate : w'.chip.rate = w.chip.rate := by
        rw [Chip.quiet_eq hc]
        cases s <;> rfl
      -- No put clears a register.
      have hclears : Avoids (fun a => a.kind = .clear) (s.writes w.chip.quiet) :=
        (s.writes_kind _).mono fun a ha => by
          rw [ha]
          cases s <;> rfl
      rw [hp]
      rw [← hdatum] at hf
      have hm : Mirrors w w' := .of_follows hl' hrate hw hclears hf
      exact hm hl
  · -- A selection is the panel's, and sends nothing.
    have hsel : Bus.Frames Xfer.write (fun c c' : Chip => c'.wordView = c.wordView) (fun x => x.1.Unmirrored)
        (fun _ => True) (bfPanelSelectPut k pair x.item) :=
      bfPanelSelectPut_keeps (Bus.Framing.view Chip.wordView) (fun _ => rfl) (fun _ _ _ => rfl) (fun _ => rfl)
        (fun _ => rfl) k pair _
    exact mirrors_of_frames hsel w
  · obtain ⟨e, -, hp⟩ := hr w
    rw [hp]
    exact mirrors_linking.refl w

/-- So does the start of a session. -/
theorem bfSessionTrigger_mirrors : Bus.Relates Mirrors bfSessionTrigger := fun w hl hrate => by
  obtain ⟨r, hr, hsame⟩ := id hrate
  obtain ⟨m, hm, hwrites⟩ := bfSessionTrigger_at (hsame ▸ bfRateLookup_of_mem hr)
  have hclock : ∀ c, AllOf .host (clockRegs r c) := fun c => .cons (of_kind rfl) (settingsRegs_kind _)
  have hstart : AllOf .host [word BF_REQ_KEEPALIVE 0x8000 0x0000, word BF_REQ_SESSION_START 0x0000 0x0000] :=
    .cons (of_kind rfl) (.cons (of_kind rfl) .nil)
  rw [hm]
  exact mirrors_of_writes hwrites (fun c => .append (hclock c) hstart) w hl hrate

/-- So does its arm. -/
theorem bfSessionArm_mirrors : Bus.Relates Mirrors bfSessionArm := by
  have hsend : Writes bfSessionArm fun _ => [word BF_REQ_SESSION_ARM 0xc000 0x0000] :=
    bfVendorWrite_writes _ _ (by decide)
  exact mirrors_of_writes hsend fun _ => .cons (of_kind rfl) .nil

/-- A new rate computes the EQ's blocks anew and sends all of them; it moves no other word. -/
theorem bfRetune_mirrors {r : BfRate} (hr : r ∈ bfRates) : Bus.Relates Mirrors (bfRetune r) := fun w hl _ => by
  -- The interface is set first, with its transfer delivered.
  have hset : usbSetInterface r.alt w =
      (.ok (), { w with wire := w.wire ++ [.setInterface r.alt], usb := Bus.shift w.usb 1 }) := if_pos (hl 0)
  let w₁ : World :=
    { w with
      chip := { w.chip with rate := r.rate, alt := r.alt, frame_bytes := r.frame_bytes }
      wire := w.wire ++ [.setInterface r.alt]
      usb := Bus.shift w.usb 1 }
  have hrun : bfRetune r w = bfEqReupload w₁ := by
    unfold bfRetune
    rw [Bus.M.bind_of_ok hset, Bus.M.bind_of_ok (Bus.M.modify_run _ _)]
  obtain ⟨w', hup, hc, hw, hl'⟩ := (bfEqReupload_does.run_live (w := w₁)) fun _ => hl _
  have hquiet : w'.chip.quiet = (recomputeAll w₁.chip).quiet := hc
  -- Then all the blocks go out, and nothing else.
  have hblocks : AllOf .eq (reuploadRegs w₁.chip.quiet) := .flatMap fun strip _ => eqRegs_kind strip _
  have hwire : w'.wire.map Xfer.write =
      w.wire.map Xfer.write ++ ([(.iface, .alt r.alt)] ++ reuploadRegs w₁.chip.quiet) := by
    rw [hw, List.map_append, List.append_assoc]
    rfl
  have hf : Follows Mirrored.reg (Mirrored.datum w.chip) (Mirrored.datum w'.chip)
      ([(.iface, .alt r.alt)] ++ reuploadRegs w₁.chip.quiet) := by
    intro i
    by_cases hk : i.kind = .eq
    · -- The blocks are computed for the new rate, from the parameters as they were.
      left
      obtain ⟨strip, side, rfl⟩ := Mirrored.eq_of_kind hk
      have heq : w'.chip.eq = (recomputeAll w₁.chip).eq := by
        have h := congrArg Chip.eq hquiet
        exact h
      have hfs : w'.chip.eqFs = w₁.chip.eqFs := by
        have h := congrArg Chip.eqFs hquiet
        exact h
      have hlast : last (reuploadRegs w₁.chip.quiet) (Mirrored.eq strip side).reg = _ :=
        last_eqRegs_all _ strip side
      rw [Registers.last_append, hlast, Option.some_or, Mirrored.datum, heq, hfs]
      rfl
    -- No other word depends on the rate.
    · right
      have hmixer : w'.chip.toMixer = w.chip.toMixer := by
        have h := congrArg Chip.toMixer hquiet
        exact h
      have hiface : AllOf .host [(Reg.iface, Datum.alt r.alt)] := .cons (of_kind rfl) .nil
      refine ⟨?_, Mirrored.datum_mixer hmixer hk⟩
      rw [Registers.last_append, last_off_kind hblocks hk, last_off_kind hiface i.kind_ne_host, Option.none_or]
  have hclears : Avoids (fun a => a.kind = .clear) ([(.iface, .alt r.alt)] ++ reuploadRegs w₁.chip.quiet) :=
    .cons Kind.noConfusion (hblocks.mono fun a ha => by rw [ha]; decide)
  rw [hrun, hup]
  refine ⟨hl', ⟨r, hr, ?_⟩, fun d i hi => hi.follows hwire hclears hf⟩
  rw [Chip.quiet_eq hquiet]
  rfl

/-- A rebuilt device agrees with the cache on every register, but for a DIM flag that it may have kept. -/
theorem Rebuilt.mirrored {d D : Reg → Datum} {c : Chip} (h : Rebuilt d D c) (i : Mirrored)
    (hdim : i = .dim → c.dim = false → d dimReg = .word 0x0000) : D i.reg = i.datum c := by
  cases i with
  | master8 out side => exact (h.masters out side).1
  | master16 out side => exact (h.masters out side).2
  | point out src side => exact h.points out src side
  | fx side =>
    obtain rfl | rfl := left_or_right side
    · exact h.fx _ List.mem_cons_self
    · exact h.fx _ (List.mem_cons_of_mem _ List.mem_cons_self)
  | loopback ch => exact h.loopback _ (List.mem_map.mpr ⟨ch, List.mem_range.mpr ch.isLt, rfl⟩)
  | preamp f => exact h.preamp f
  | dim =>
    refine h.dim.trans ?_
    unfold Mirrored.datum
    cases hc : c.dim with
    | true => rfl
    | false => exact hdim rfl hc
  | gain mic => exact h.gains mic _ List.mem_cons_self
  | eq strip side => exact h.eq strip _ (List.mem_map.mpr ⟨side, List.mem_finRange side, rfl⟩)

/-- So does a resume, which writes all of it. -/
theorem babyfaceResume_mirrors (hd : w.chip.DimSaved) (hone : w.chip.OneLoopback) (jiffies : ℤ) :
    Mirrors w (babyfaceResume jiffies w).2 := fun hl hrate => by
  have hkeeps : Keeps (fun c c' : Chip => c'.rate = c.rate) (babyfaceResume jiffies) :=
    babyfaceResume_keeps (Bus.Framing.view fun c : Chip => c.rate)
      (fun c c' e e' hc he hce => by
        rw [Chip.quiet_eq hc, Chip.quiet_eq he]
        exact hce)
      (fun _ => rfl) (fun _ => rfl) (fun _ _ => rfl) fun _ => rfl
  have hsame : (babyfaceResume jiffies w).2.chip.rate = w.chip.rate := hkeeps.state w
  refine ⟨hkeeps.live hl, by rwa [hsame], fun d i hi => ?_⟩
  obtain ⟨w', hrun, hmixer, hbuilt⟩ := babyfaceResume_rebuilt hl hd hone hrate jiffies d
  rw [hrun]
  -- The flag is left alone where DIM is not engaged, and agreed before.
  refine hbuilt.mirrored i fun he hoff => ?_
  subst he
  have hoff' : w.chip.dim = false := by
    have hm := congrArg (fun m : Mixer => m.dim) hmixer
    exact hm.symm.trans hoff
  have hflag : contents d w.wire dimReg = .word (if w.chip.dim then 0x2000 else 0x0000) := hi
  rw [hflag, hoff']
  rfl

end Steps

/-! ## Polls -/

section Polls

variable {w : World}

/-- The wheel is not turned, and MIX is not engaged. -/
structure Poll.Still (p : Poll) (c : Chip) : Prop where
  wheel : ¬ (wheelDelta (c.panel_prev 2) (p.st 2) ≠ 0 ∧ wheelClass (p.st 2) = wheelClass (c.panel_prev 2))
  mix : pressed BF_PANEL_FLASH_MIX p.st c = true → c.panel_mix = true

/-- The registers that engage and leave MIX are no preamp's. -/
theorem mixXfers_unmirrored : MixXfers fun x => x.1.Unmirrored := by
  have hreg : ∀ idx, idx = 0x8c80 ∨ idx = 0x8000 ∨ idx = 0x8080 → (Reg.ctl BF_REQ_PREAMP idx).Unmirrored := by
    intro idx hidx
    have hkind : (Reg.ctl BF_REQ_PREAMP idx).kind = .preamp := by
      obtain rfl | rfl | rfl := hidx <;> rfl
    refine ⟨by rw [hkind]; decide, fun i he => ?_⟩
    have hi : i.kind = .preamp := by rw [← i.reg_kind, he, hkind]
    cases i <;> try cases hi
    rename_i f
    obtain rfl | rfl | rfl := hidx <;> cases f <;> exact absurd he (by decide)
  exact ⟨hreg _ (.inl rfl), hreg _ (.inr (.inl rfl)), hreg _ (.inr (.inr rfl))⟩

/-- The wheel's resync sends an output's cached levels again. -/
theorem bfPanelOutResync_mirrors (now : ℤ) : Bus.Relates Mirrors (bfPanelOutResync now) := fun w hl => by
  have hkeep : Keeps (fun c c' : Chip => c'.wordView = c.wordView) (bfPanelOutResync now) :=
    bfPanelOutResync_frames (viewFrame fun _ _ => rfl) (fun _ => rfl) now
  have hv : (bfPanelOutResync now w).2.chip.wordView = w.chip.wordView := hkeep.state w
  obtain ⟨ws, hw, hws⟩ := bfPanelOutResync_sends hl now
  obtain rfl | ⟨o, rfl⟩ := hws
  -- Nothing was due, or the output had been put since.
  · have hm : Mirrors w (bfPanelOutResync now w).2 :=
      .of_view (hkeep.live hl) hv hw fun _ hx => absurd hx List.not_mem_nil
    exact hm hl
  -- The cached levels of one output go out, which change nothing.
  · have hcov : Covers w.chip w.chip (fun _ => false) (w.chip.outRegs o) :=
      .output (List.append_nil _).symm .nil fun _ _ _ => ⟨rfl, rfl⟩
    have hkind : AllOf .master (w.chip.outRegs o) := outRegs_kind _ _ _ _ _
    have hf : Follows Mirrored.reg (Mirrored.datum w.chip) (Mirrored.datum (bfPanelOutResync now w).2.chip)
        (w.chip.outRegs o) := by
      intro i
      rw [Mirrored.datum_congr hv]
      by_cases hi : i.kind = .master
      · cases i <;> try cases hi
        · exact (hcov.low _ _).imp_right fun h => ⟨h.1, rfl⟩
        · exact hcov.high _ _
      · exact .inr ⟨last_off_kind hkind hi, rfl⟩
    have hrate : (bfPanelOutResync now w).2.chip.rate = w.chip.rate := congrArg (fun v => v.2.2) hv
    have hm : Mirrors w (bfPanelOutResync now w).2 :=
      .of_follows (hkeep.live hl) hrate hw (hkind.mono fun a ha => by rw [ha]; decide) hf
    exact hm hl

/-- SET writes the byte that it caches. -/
theorem tickSet_mirrors (st : Readback) : Bus.Relates Mirrors (tickSet st) := by
  have hR := mirrors_linking
  have hF := Bus.Framing.view Chip.wordView
  -- The byte goes out in full, as no transfer fails.
  have hset : Bus.Relates Mirrors (Bus.M.settle cachePhantom bfPreampStateWrite restorePreamp) := by
    intro w hl
    obtain ⟨w', hrun, hc, hw, hl'⟩ := bfPreampStateWrite_writes.settle_live cachePhantom restorePreamp hl
    have hkind : AllOf .preamp (preampRegs (cachePhantom w.chip).quiet) :=
      .cons (of_kind rfl) (commitRegs_kind _)
    have hv : w'.chip.wordView = (cachePhantom w.chip).quiet.wordView := by
      rw [Chip.quiet_eq hc]
      rfl
    have hf : Follows Mirrored.reg (Mirrored.datum w.chip) (Mirrored.datum w'.chip)
        (preampRegs (cachePhantom w.chip).quiet) := by
      intro i
      rw [Mirrored.datum_congr hv]
      by_cases hi : i.kind = .preamp
      · cases i <;> try cases hi
        rename_i f
        have hfollows : Follows PreampReg.reg (PreampReg.datum w.chip)
            (PreampReg.datum (cachePhantom w.chip).quiet) (preampRegs (cachePhantom w.chip).quiet) :=
          preampRegs_follows rfl rfl
        exact hfollows f
      · refine .inr ⟨last_off_kind hkind hi, ?_⟩
        cases i <;> first | rfl | exact absurd rfl hi
    have hrate : w'.chip.rate = w.chip.rate := by
      rw [Chip.quiet_eq hc]
      rfl
    have hm : Mirrors w w' := .of_follows hl' hrate hw (hkind.mono fun a ha => by rw [ha]; decide) hf
    rw [hrun]
    exact hm hl
  -- The notifications after it send nothing.
  have hnotify : ∀ old, Bus.Relates Mirrors (phantomNotify old) := fun old => by
    refine mirrors_of_frames (X := fun _ => True) ?_
    exact hF.bind hF.get fun _ => hF.bind (hF.when _ fun _ => hF.notify _) fun _ =>
      hF.bind (hF.when _ fun _ => hF.notify _) fun _ => hF.modify fun _ => rfl
  unfold tickSet bfPanelSetPhantom
  refine hR.get fun w => hR.when _ (fun _ => ?_) w
  refine hR.get fun w => hR.ite _ (fun _ => hR.pure _) (fun _ => ?_) w
  exact hR.bind (hR.ignore hset) fun _ => hnotify _

/-- Leaving MIX moves no word; engaging it writes a display in among the masters. -/
theorem tickMix_mirrors (st : Readback)
    (h : pressed BF_PANEL_FLASH_MIX st w.chip = true → w.chip.panel_mix = true) : Mirrors w (tickMix st w).2 := by
  have hR := mirrors_linking
  have hexit : Bus.Relates Mirrors mixExit :=
    mirrors_of_frames (X := fun _ => True)
      (mixExit_frames (Bus.Framing.view Chip.wordView) mixXfers_unmirrored fun _ => rfl)
  unfold tickMix
  rw [Bus.M.bind_of_ok (Bus.M.get_run w)]
  refine hR.when _ (fun hpress => ?_) w
  rw [if_pos (h hpress)]
  exact hexit

/-- A readback without a click leaves the wheel's part alone. -/
theorem tickWheel_still {st : Readback} (now : ℤ)
    (h : ¬ (wheelDelta (w.chip.panel_prev 2) (st 2) ≠ 0 ∧ wheelClass (st 2) = wheelClass (w.chip.panel_prev 2))) :
    tickWheel st now w = (.ok (), w) := by
  unfold tickWheel
  rw [Bus.M.bind_of_ok (Bus.M.get_run w), Bus.M.ite_run, if_neg h]
  rfl

/-- The head of a readback's decoding, with the wheel at rest. -/
theorem decodeHead_mirrors (p : Poll) (h : p.Still w.chip) : Mirrors w (decodeHead p w).2 := by
  have hbutton : Bus.Relates Mirrors (tickButton p.st) :=
    mirrors_of_frames (X := fun _ => True)
      (tickButton_frames (Bus.Framing.view Chip.wordView) (fun _ _ => rfl) p.st)
  have hprev : (tickButton p.st w).2.chip.panel_prev = w.chip.panel_prev :=
    (tickButton_frames (T := fun _ => True) (X := fun _ => True)
      (Bus.Framing.view fun c : Chip => c.panel_prev) (fun _ _ => rfl) p.st).state w
  rw [decodeHead_run, tickWheel_still p.now (by rw [hprev]; exact h.wheel)]
  exact mirrors_linking.trans (hbutton w) (bfPanelOutResync_mirrors p.rest _)

/-- Its middle. -/
theorem decodeMid_mirrors (p : Poll) : Bus.Relates Mirrors (decodeMid p) := by
  have hF := Bus.Framing.view Chip.wordView
  refine mirrors_of_frames (X := fun _ => True) ?_
  refine hF.bind (tickIn_frames hF (fun _ _ => rfl) _) fun _ => ?_
  refine hF.bind (tickOut_frames hF (fun _ _ => rfl) _) fun _ => ?_
  refine hF.bind (tickSelect_frames hF trivial (fun _ _ => rfl) (fun _ => rfl) (fun _ => rfl) _) fun _ => ?_
  exact tickHold_frames hF (fun _ _ => rfl) _

/-- All of a readback, with the wheel at rest and MIX not engaged. -/
theorem decode_mirrors (p : Poll) (h : p.Still w.chip) (ht : w.chip.SelTracked) : Mirrors w (decode p w).2 := by
  have hR := mirrors_linking
  have hF := Bus.Framing.view Chip.wordView
  have hpress : Bus.Relates Mirrors (tickDimPress p.st) :=
    mirrors_of_frames (X := fun _ => True) (tickDimPress_frames hF (fun _ _ => rfl) p.st)
  have hfader : Bus.Relates Mirrors (tickFader p.st) :=
    mirrors_of_frames (X := fun _ => True)
      (tickFader_frames hF mixXfers_unmirrored (fun _ => rfl) (fun _ => rfl) p.st)
  have hdim : Bus.Relates Mirrors (tickDim p.st) :=
    mirrors_of_frames (X := fun _ => True) (tickDim_frames hF (fun _ _ => rfl) p.st)
  have hprev : Bus.Relates Mirrors (modify fun c : Chip => { c with panel_prev := p.st } : Usb Unit) :=
    mirrors_of_frames (X := fun _ => True) (hF.modify fun _ => rfl)
  -- The stages before MIX move neither MIX nor the readback that its press is seen against.
  have hbefore := ((tickDimPress_press p.st).state _).trans (((tickSet_press p.st).state _).trans
    (((decodeMid_press p).state (decodeHead p w).2).trans ((decodeHead_press p).state w)))
  have hhead := hR.trans (hR.trans (decodeHead_mirrors p h) (decodeMid_mirrors p _))
    (hR.trans (tickSet_mirrors p.st _) (hpress _))
  rw [decode_run p ht, decodeTail_run]
  generalize (tickDimPress p.st (tickSet p.st (decodeMid p (decodeHead p w).2).2).2).2 = w₁ at hbefore hhead ⊢
  simp only [Chip.pressView, Chip.latch, Prod.mk.injEq] at hbefore
  have hmix : Mirrors w₁ (tickMix p.st w₁).2 := tickMix_mirrors p.st fun hp => by
    rw [hbefore.1.1]
    exact h.mix (by rwa [pressed_congr hbefore.2] at hp)
  exact hR.trans hhead (hR.trans hmix (hR.trans (hfader _) (hR.trans (hdim _) (hprev _))))

/-- A poll with the wheel at rest and MIX not engaged keeps the mirror. -/
theorem babyfacePanelWork_mirrors (p : Poll) (t : ℤ) (h : w.chip.panel_seen = true → p.Still w.chip)
    (ht : w.chip.SelTracked) : Mirrors w (babyfacePanelWork p t w).2 := fun hl => by
  by_cases hr : Reads w
  -- A poll that reads is followed stage by stage.
  · have hheard : Mirrors w (heard w) := .silent (fun _ => hl _) rfl rfl
    have htimed : ∀ w', Mirrors w' (timed t w') := fun w' hl' => by
      have hm : Mirrors w' (timed t w') := .silent hl' rfl rfl
      exact hm hl'
    cases hs : w.chip.panel_seen with
    | true =>
      rw [babyfacePanelWork_decode p t hr hs ht]
      have hdecode : Mirrors (heard w) (decode p (heard w)).2 := decode_mirrors p (h hs) ht
      exact mirrors_linking.trans hheard (mirrors_linking.trans hdecode (htimed _)) hl
    | false =>
      rw [babyfacePanelWork_first p t hr hs]
      have hfirst : Mirrors w { heard w with chip := snapshot p.st w.chip } := .silent (fun _ => hl _) rfl rfl
      exact mirrors_linking.trans hfirst (htimed _) hl
  · -- No transfer fails, so this card is shut down.
    have hlive : Live (babyfacePanelWork p t w).2 := (babyfacePanelWork_stream p t).live hl
    obtain ⟨usb, t', hrun⟩ := babyfacePanelWork_deaf p t hr
    rw [hrun] at hlive ⊢
    have hm : Mirrors w (timed t' { w with usb := usb }) := .silent hlive rfl rfl
    exact hm hl

end Polls

/-! ## Runs -/

/-- A step that keeps the mirror: a put that finds its value cached or is under no overlay, a poll in which the
wheel is not turned and MIX is not engaged, a new rate, a session's start, a change of the substreams, a resume. -/
inductive MirrorStep : World → World → Prop
  | put (k : Clock) (x : ElemValue) (ctl : Ctl) {w : World}
    (h : ∀ s, ctl.setting x = some s → s.Unshadowed w.chip) : MirrorStep w (bfPut k x ctl w).2
  | poll (p : Poll) (t : ℤ) {w : World} (h : w.chip.panel_seen = true → p.Still w.chip) :
    MirrorStep w (babyfacePanelWork p t w).2
  | retune {r : BfRate} (h : r ∈ bfRates) (w : World) : MirrorStep w (bfRetune r w).2
  | trigger (w : World) : MirrorStep w (bfSessionTrigger w).2
  | arm (w : World) : MirrorStep w (bfSessionArm w).2
  | stream {s : Stream} {w : World} (h : s.rate = w.chip.rate) :
    MirrorStep w { w with chip := { w.chip with toStream := s } }
  | resume (jiffies : ℤ) (w : World) : MirrorStep w (babyfaceResume jiffies w).2

/-- Such a step is a step of the card. -/
theorem MirrorStep.card {w w' : World} (h : MirrorStep w w') (hreach : Reachable w) : CardStep w w' := by
  cases h with
  | put k x ctl h => exact .put k x ctl w
  | poll p t h => exact .poll p t w
  | retune h => exact .retune h w
  | trigger => exact .trigger w
  | arm => exact .arm w
  | @stream s _ h =>
    have hs : s.Rated := by
      unfold Stream.Rated
      rw [h]
      exact hreach.rated
    exact .stream hs w
  | resume jiffies => exact .resume jiffies w

/-- Each step keeps the mirror. -/
theorem MirrorStep.mirrors {w w' : World} (h : MirrorStep w w') (hreach : Reachable w) : Mirrors w w' := by
  cases h with
  | put k x ctl h => exact bfPut_mirrors k x ctl hreach.sound.dim h
  | poll p t h => exact babyfacePanelWork_mirrors p t h hreach.tracked
  | retune h => exact bfRetune_mirrors h w
  | trigger => exact bfSessionTrigger_mirrors w
  | arm => exact bfSessionArm_mirrors w
  | @stream s _ h =>
    have hv : ({ w.chip with toStream := s } : Chip).wordView = w.chip.wordView := by
      simp only [Chip.wordView, h]
    intro hl
    have hm : Mirrors w { w with chip := { w.chip with toStream := s } } := .silent hl hv rfl
    exact hm hl
  | resume jiffies => exact babyfaceResume_mirrors hreach.sound.dim hreach.oneLoopback jiffies

/-- So does a run, and what it leads to is reachable. -/
theorem MirrorStep.run {w w' : World} (hrun : Relation.ReflTransGen MirrorStep w w') (h : Reachable w) :
    Reachable w' ∧ Mirrors w w' := by
  induction hrun with
  | refl => exact ⟨h, mirrors_linking.refl w⟩
  | tail _ hstep ih => exact ⟨ih.1.step (hstep.card ih.1), mirrors_linking.trans ih.2 (hstep.mirrors ih.1)⟩

/-- While no transfer fails, the wheel is not turned and MIX is not engaged, no step takes a register away from
its word: what agreed with the cache agrees with it after any run, whatever the controls, rates, sessions, polls
and resumes in it. -/
theorem mirror_kept {w w' : World} (h : Reachable w) (hl : Live w)
    (hrun : Relation.ReflTransGen MirrorStep w w') (d : Reg → Datum) (i : Mirrored) (hi : Agree d w i) :
    Agree d w' i :=
  ((MirrorStep.run hrun h).2 hl h.rated).2.2 d i hi

/-- A master is put on a new card; the panel is polled and the rate is changed after it. -/
theorem mirror_kept_master : ∃ w', Relation.ReflTransGen MirrorStep sleptCard w' ∧ w'.chip.rate = 96000 ∧
    w'.chip.master 0 0 = 100 ∧ Agree (fun _ => sleptCard.chip.word8 0 0) w' (.master8 0 0) := by
  let w₁ : World := (bfPut clock0 (putValue 100) (.master 0) sleptCard).2
  let w₂ : World := (babyfacePanelWork ⟨![0, 0, 0x40, 0x40], 0, 0⟩ 0 w₁).2
  have hreach : Reachable sleptCard := (freshCardWith_reachable fun _ => true).step (.suspend _)
  have hput : MirrorStep sleptCard w₁ := .put _ _ _ fun s hs => by
    simp only [Ctl.setting, Option.ite_none_right_eq_some, Option.some.injEq] at hs
    obtain ⟨-, rfl⟩ := hs
    exact .inr trivial
  -- The first poll after a start takes a snapshot.
  have hseen : w₁.chip.panel_seen = false := by decide +kernel
  have hpoll : MirrorStep w₁ w₂ := .poll _ _ fun hs => absurd (hseen.symm.trans hs) Bool.false_ne_true
  have hretune : MirrorStep w₂ (bfRetune ⟨96000, BF_ALT_2, 40, 16⟩ w₂).2 := .retune (by decide) w₂
  have hrun := Relation.ReflTransGen.tail (.tail (.single hput) hpoll) hretune
  exact ⟨_, hrun, by decide +kernel, by decide +kernel, mirror_kept hreach (fun _ => rfl) hrun _ _ rfl⟩

/-- From a resume on the device mirrors the cache, whatever it held before, but for a DIM flag that was set and is
no longer engaged. -/
theorem mirror_resumed {w w' : World} (h : Reachable w) (hl : Live w) (jiffies : ℤ)
    (hrun : Relation.ReflTransGen MirrorStep (babyfaceResume jiffies w).2 w') (d : Reg → Datum) (i : Mirrored)
    (hi : i = .dim → w.chip.dim = false → contents d w.wire dimReg = .word 0x0000) : Agree d w' i := by
  obtain ⟨hl', hrate', -⟩ := babyfaceResume_mirrors h.sound.dim h.oneLoopback jiffies hl h.rated
  have hresumed : Agree d (babyfaceResume jiffies w).2 i := by
    obtain ⟨w₁, hr, hmixer, hbuilt⟩ := babyfaceResume_rebuilt hl h.sound.dim h.oneLoopback h.rated jiffies d
    rw [hr]
    refine hbuilt.mirrored i fun he hoff => hi he ?_
    have hm := congrArg (fun m : Mixer => m.dim) hmixer
    exact hm.symm.trans hoff
  exact ((MirrorStep.run hrun (h.step (.resume jiffies w))).2 hl' hrate').2.2 d i hresumed

end BabyfacePro
