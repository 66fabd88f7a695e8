import BabyfacePro.Core.Coherence
import BabyfacePro.Lib.Relates

/-!
# The preamp byte and its commit

48V, pad and the ref level share one byte; link and AN 1>2 share a second register; and every write of
either is followed by a commit whose value carries Boost, which the device does not store. The puts,
SET on the panel and the replay all write them, and the cold init commits 0 in the middle of a replay.
The card is watched from a probe whose readback got through (`preamp_matches_wire`).
-/

namespace BabyfacePro

open Registers (last Avoids Follows)
open Bus.M (get modify when)

/-! ## The registers and the words that the cache stands for -/

/-- The registers of the preamp. -/
inductive PreampReg where
  /-- 48V, pad and the bits of the ref level. -/
  | byte
  /-- Link and AN 1>2. -/
  | link
  /-- The commit, with Boost. -/
  | commit

/-- The register itself. -/
def PreampReg.reg : PreampReg → Reg
  | .byte => preampReg
  | .link => .ctl BF_REQ_PREAMP 0x1000
  | .commit => .ctl BF_REQ_PREAMP_COMMIT 0x0000

/-- The word that the cache stands for. -/
def PreampReg.datum (c : Chip) : PreampReg → Datum
  | .byte => .word c.preamp
  | .link => .word (linkWord c.linked c.an12)
  | .commit => .word (commitValue c.ref_level)

/-- The part of the cache that they depend on. -/
def Chip.preampView (c : Chip) : U16 × ℕ × Bool × Bool := (c.preamp, c.ref_level, c.linked, c.an12)

/-- It is a part of the mixer cache. -/
theorem preampView_congr {c d : Chip} (h : d.toMixer = c.toMixer) : d.preampView = c.preampView := by
  unfold Chip.preampView
  rw [h]

/-- Two caches with the same preamp. -/
theorem datum_congr {c d : Chip} (h : d.preampView = c.preampView) :
    PreampReg.datum d = PreampReg.datum c := by
  simp only [Chip.preampView, Prod.mk.injEq] at h
  obtain ⟨hbyte, hlevel, hlink, han12⟩ := h
  funext f
  cases f
  · exact congrArg Datum.word hbyte
  · show Datum.word (linkWord d.linked d.an12) = _
    rw [hlink, han12]
    rfl
  · show Datum.word (commitValue d.ref_level) = _
    rw [hlevel]
    rfl

/-- The classes of the three registers. -/
def Reg.isPreamp : Reg → Bool
  | .ctl req idx => (req = BF_REQ_PREAMP && (idx = BF_REG_PREAMP || idx = 0x1000)) ||
      req = BF_REQ_PREAMP_COMMIT
  | _ => false

/-- Its registers are of the preamp. -/
theorem PreampReg.isPreamp (f : PreampReg) : f.reg.isPreamp = true := by cases f <;> decide

/-! ## The other writes -/

/-- A word of another request is not. -/
theorem word_not_preamp {req : ℕ} (idx : ℕ) (v : U16)
    (h : req ≠ BF_REQ_PREAMP ∧ req ≠ BF_REQ_PREAMP_COMMIT) : ¬ (word req idx v).1.isPreamp = true := by
  simp [word, Reg.isPreamp, h.1, h.2]

/-- A crosspoint is not. -/
theorem xreg_not_preamp (idx : ℕ) (v : U16) : ¬ (xreg idx v).1.isPreamp = true :=
  word_not_preamp idx v (by decide)

/-- Writes elsewhere leave the words as they are. -/
theorem Misses.follows {ws : List (Reg × Datum)} (h : Misses Reg.isPreamp ws) {c d : Chip}
    (hd : d.preampView = c.preampView) : Follows PreampReg.reg (PreampReg.datum c) (PreampReg.datum d) ws := by
  rw [datum_congr hd]
  refine .of_avoids (h.mono fun a ha => ?_)
  obtain ⟨f, rfl⟩ := ha
  exact f.isPreamp

/-- Nor are the masters of an output. -/
theorem outRegs_not_preamp (out : Out) (muted dim : Bool) (l r : U16) :
    Misses Reg.isPreamp (outRegs out muted dim l r) :=
  .cons (word_not_preamp _ _ (by decide)) <| .cons (word_not_preamp _ _ (by decide)) <|
    .cons (xreg_not_preamp _ _) <| .cons (xreg_not_preamp _ _) .nil

/-- Nor a pair of crosspoints. -/
theorem xpointRegs_not_preamp (out : Out) (src : Src) (l r : U16) :
    Misses Reg.isPreamp (xpointRegs out src l r) :=
  .cons (xreg_not_preamp _ _) (.cons (xreg_not_preamp _ _) .nil)

/-- Nor the crosspoints of an output. -/
theorem blockRegs_not_preamp (out : Out) (xpoint : Src → Side → U16) :
    Misses Reg.isPreamp (blockRegs out xpoint) :=
  .append (.flatMap fun _ _ => xpointRegs_not_preamp _ _ _ _) <|
    .append (.map fun _ _ => xreg_not_preamp _ _) (.map fun _ _ => xreg_not_preamp _ _)

/-- Nor those of a phase. -/
theorem phaseRegs_not_preamp (mic : Mic) (invert : Bool) (c : Chip) :
    Misses Reg.isPreamp (phaseRegs mic invert c) := .map fun _ _ => xreg_not_preamp _ _

/-- Nor those of a split. -/
theorem splitRegs_not_preamp (pb : Out) (split : Bool) (c : Chip) :
    Misses Reg.isPreamp (splitRegs pb split c) := xpointRegs_not_preamp _ _ _ _

/-- Nor those of a trim. -/
theorem trimRegs_not_preamp (mic : Mic) (db2 : ℤ) : Misses Reg.isPreamp (trimRegs mic db2) :=
  .append (xpointRegs_not_preamp _ _ _ _) (xpointRegs_not_preamp _ _ _ _)

/-- Nor a gain. -/
theorem gainRegs_not_preamp (mic : Mic) (db : ℤ) : Misses Reg.isPreamp (gainRegs mic db) :=
  .cons (word_not_preamp _ _ (by decide)) .nil

/-- Nor the settings word. -/
theorem settingsRegs_not_preamp (c : Chip) : Misses Reg.isPreamp (settingsRegs c) :=
  .cons (word_not_preamp _ _ (by decide)) .nil

/-- Nor the varispeed quad. -/
theorem pitchRegs_not_preamp (pitch : ℤ) (c : Chip) : Misses Reg.isPreamp (pitchRegs pitch c) :=
  .append (.map fun _ _ => word_not_preamp _ _ (by decide)) (settingsRegs_not_preamp c)

/-- Nor the loopback map. -/
theorem loopbackRegs_not_preamp (out : ℤ) (on : Bool) : Misses Reg.isPreamp (loopbackRegs out on) :=
  .map fun _ _ => word_not_preamp _ _ (by decide)

/-- Nor the crosspoints of the width. -/
theorem widthRegs_not_preamp (w : ℤ) : Misses Reg.isPreamp (widthRegs w) := by
  intro x hx
  simp only [widthRegs, List.mem_cons, List.not_mem_nil, or_false] at hx
  obtain rfl | rfl | rfl | rfl | rfl | rfl | rfl | rfl := hx <;> exact xreg_not_preamp _ _

/-- Nor those of the MS processing. -/
theorem msRegs_not_preamp : Misses Reg.isPreamp msRegs :=
  .cons (xreg_not_preamp _ _) <| .cons (xreg_not_preamp _ _) <| .cons (xreg_not_preamp _ _) <|
    .cons (xreg_not_preamp _ _) .nil

/-- Nor those that a put of it writes. -/
theorem msPutRegs_not_preamp (on : Bool) (c : Chip) : Misses Reg.isPreamp (msPutRegs on c) := by
  unfold msPutRegs
  split
  · exact msRegs_not_preamp
  · exact .append (xpointRegs_not_preamp _ _ _ _) (xpointRegs_not_preamp _ _ _ _)

/-- Nor the FX send. -/
theorem fxRegs_not_preamp (v : U16) : Misses Reg.isPreamp (fxRegs v) :=
  .cons (xreg_not_preamp _ _) (.cons (xreg_not_preamp _ _) .nil)

/-- DIM's flag has the preamp's request, at another index. -/
theorem dimRegs_not_preamp (on : Bool) (c : Chip) : Misses Reg.isPreamp (dimRegs on c) :=
  .append (outRegs_not_preamp _ _ _ _ _) (.cons (by cases on <;> decide) .nil)

/-- Nor an EQ block. -/
theorem eqRegs_not_preamp (strip : Mic) (e : EqChannel) : Misses Reg.isPreamp (eqRegs strip e) :=
  .map fun _ _ => Bool.false_ne_true

/-! ## The writes of the preamp -/

/-- The preamp's write leaves its byte and its commit. -/
theorem last_preampRegs (c : Chip) : last (preampRegs c) PreampReg.byte.reg = some (.word c.preamp) ∧
    last (preampRegs c) PreampReg.link.reg = none ∧
    last (preampRegs c) PreampReg.commit.reg = some (.word (commitValue c.ref_level)) := by
  have haddr : (preampRegs c).map Prod.fst = [PreampReg.byte.reg, PreampReg.commit.reg] := rfl
  have hn : ((preampRegs c).map Prod.fst).Nodup := by
    rw [haddr]
    decide
  have hlink : PreampReg.link.reg ∉ (preampRegs c).map Prod.fst := by
    rw [haddr]
    decide
  exact ⟨Registers.last_of_mem hn List.mem_cons_self, Registers.last_eq_none hlink,
    Registers.last_of_mem hn (List.mem_cons_of_mem _ List.mem_cons_self)⟩

/-- The link's write leaves its word and the commit. -/
theorem last_linkRegs (linked an12 : Bool) (c : Chip) :
    last (linkRegs linked an12 c) PreampReg.byte.reg = none ∧
      last (linkRegs linked an12 c) PreampReg.link.reg = some (.word (linkWord linked an12)) ∧
      last (linkRegs linked an12 c) PreampReg.commit.reg = some (.word (commitValue c.ref_level)) := by
  have haddr : (linkRegs linked an12 c).map Prod.fst = [PreampReg.link.reg, PreampReg.commit.reg] := rfl
  have hn : ((linkRegs linked an12 c).map Prod.fst).Nodup := by
    rw [haddr]
    decide
  have hbyte : PreampReg.byte.reg ∉ (linkRegs linked an12 c).map Prod.fst := by
    rw [haddr]
    decide
  exact ⟨Registers.last_eq_none hbyte, Registers.last_of_mem hn List.mem_cons_self,
    Registers.last_of_mem hn (List.mem_cons_of_mem _ List.mem_cons_self)⟩

/-- A write of the byte, of a cache with the link bits of the one before. -/
theorem preampRegs_follows {c d : Chip} (hlink : d.linked = c.linked) (han12 : d.an12 = c.an12) :
    Follows PreampReg.reg (PreampReg.datum c) (PreampReg.datum d) (preampRegs d) := by
  obtain ⟨hbyte, hnone, hcommit⟩ := last_preampRegs d
  intro f
  cases f with
  | byte => exact .inl hbyte
  | link => exact .inr ⟨hnone, congrArg Datum.word (by rw [hlink, han12])⟩
  | commit => exact .inl hcommit

/-- A write of the link bits, of a cache with the byte and the level of the one before. -/
theorem linkRegs_follows {c d : Chip} (hbyte : d.preamp = c.preamp) (hlevel : d.ref_level = c.ref_level) :
    Follows PreampReg.reg (PreampReg.datum c) (PreampReg.datum d) (linkRegs d.linked d.an12 c) := by
  obtain ⟨hnone, hlink, hcommit⟩ := last_linkRegs d.linked d.an12 c
  intro f
  cases f with
  | byte => exact .inr ⟨hnone, congrArg Datum.word hbyte⟩
  | link => exact .inl hlink
  | commit =>
    rw [← hlevel] at hcommit
    exact .inl hcommit

/-- The writes of a put follow its change of the cache. -/
theorem Setting.follows (s : Setting) (c : Chip) :
    Follows PreampReg.reg (PreampReg.datum c) (PreampReg.datum (s.cache c)) (s.writes c) := by
  -- Four settings write a word of the preamp, the others none.
  cases s with
  | preampBit bit on => exact preampRegs_follows rfl rfl
  | refLevel item => exact preampRegs_follows rfl rfl
  | an12 on => exact linkRegs_follows (d := { c with an12 := on }) rfl rfl
  | link linked => exact linkRegs_follows (d := { c with linked := linked }) rfl rfl
  | master out l r => exact (outRegs_not_preamp _ _ _ _ _).follows rfl
  | mute out muted => exact (outRegs_not_preamp _ _ _ _ _).follows rfl
  | xpoint out src l r => exact (xpointRegs_not_preamp _ _ _ _).follows rfl
  | phase mic invert => exact (phaseRegs_not_preamp _ _ _).follows rfl
  | split pb on => exact (splitRegs_not_preamp _ _ _).follows rfl
  | trim mic db => exact (trimRegs_not_preamp _ _).follows rfl
  | gain mic db => exact (gainRegs_not_preamp _ _).follows rfl
  | pitch p => exact (pitchRegs_not_preamp _ _).follows rfl
  | loopback out on => exact (loopbackRegs_not_preamp _ _).follows rfl
  | clock on => exact (settingsRegs_not_preamp _).follows rfl
  | optical spdif => exact (settingsRegs_not_preamp _).follows rfl
  | ms on => exact (msPutRegs_not_preamp _ _).follows rfl
  | dim on => exact (dimRegs_not_preamp _ _).follows rfl
  | width w => exact (widthRegs_not_preamp _).follows rfl
  | fxSend v => exact (fxRegs_not_preamp _).follows rfl
  | eq strip p v => exact (eqRegs_not_preamp _ _).follows rfl

/-! ## The worlds of a step -/

/-- With no failure to come, the writes of a step follow its change of the cache. -/
def Coheres (w w' : World) : Prop :=
  Live w → Live w' ∧ ∃ ws, w'.wire.map Xfer.write = w.wire.map Xfer.write ++ ws ∧
    Follows PreampReg.reg (PreampReg.datum w.chip) (PreampReg.datum w'.chip) ws

/-- Two parts that keep the preamp coherent keep it so together. -/
theorem coheres_linking : Bus.Linking Coheres where
  refl w hl := ⟨hl, [], (List.append_nil _).symm, .nil⟩
  trans := by
    intro w w₁ w₂ h h' hl
    obtain ⟨hl₁, ws, hw, hf⟩ := h hl
    obtain ⟨hl₂, vs, hv, hf'⟩ := h' hl₁
    exact ⟨hl₂, ws ++ vs, by rw [hv, hw, List.append_assoc], hf.append hf'⟩

/-- A routine that leaves the preamp's part of the cache, and its registers, alone. -/
theorem coheres_of_frames {α : Type} {X : Errno → Prop} {m : Usb α}
    (h : Bus.Frames Xfer.write (fun c d : Chip => d.preampView = c.preampView)
      (fun x => ¬ x.1.isPreamp = true) X m) : Bus.Relates Coheres m := fun w hl => by
  obtain ⟨ws, hw, hmiss⟩ := h.wire w
  have hmisses : Misses Reg.isPreamp ws := hmiss
  exact ⟨h.live hl, ws, hw, hmisses.follows (h.state w)⟩

/-- A put writes what it changes of the preamp. -/
theorem bfPut_coheres (k : Clock) (x : ElemValue) (ctl : Ctl) : Bus.Relates Coheres (bfPut k x ctl) := by
  intro w
  obtain ⟨s, -, hh⟩ | ⟨pair, rfl⟩ | ⟨-, hr⟩ := bfPut_cases k x ctl
  · intro hl
    -- The value was cached already, or the writes of the setting got through.
    obtain ⟨-, hp⟩ | ⟨-, w', hp, hc, hw, hl'⟩ := hh.run_live hl
    · rw [hp]
      exact coheres_linking.refl w hl
    · rw [hp]
      have hview : w'.chip.preampView = (s.cache w.chip.quiet).preampView := by rw [Chip.quiet_eq hc]; rfl
      have hf := s.follows w.chip.quiet
      rw [← datum_congr hview] at hf
      exact ⟨hl', _, hw, hf⟩
  -- The panel's selection is no word of the preamp.
  · have hsel : Bus.Frames Xfer.write (fun c d : Chip => d.preampView = c.preampView)
        (fun x => ¬ x.1.isPreamp = true) (fun _ => True) (bfPanelSelectPut k pair x.item) :=
      bfPanelSelectPut_frames (Bus.Framing.view Chip.preampView)
        (fun c d hm _ => preampView_congr hm) k pair _
    exact coheres_of_frames hsel w
  · obtain ⟨e, -, hp⟩ := hr w
    rw [hp]
    exact coheres_linking.refl w

/-! ## SET and the polls -/

/-- SET writes the byte that it caches. -/
theorem tickSet_coheres (st : Readback) : Bus.Relates Coheres (tickSet st) := by
  have hR := coheres_linking
  have hF := Bus.Framing.view Chip.preampView
  have hset : Bus.Relates Coheres (Bus.M.settle cachePhantom bfPreampStateWrite restorePreamp) := by
    intro w hl
    obtain ⟨w', hrun, hc, hw, hl'⟩ :=
      bfPreampStateWrite_writes.settle_live cachePhantom restorePreamp hl
    have hview : w'.chip.preampView = (cachePhantom w.chip).quiet.preampView := by
      rw [Chip.quiet_eq hc]
      rfl
    have hf : Follows PreampReg.reg (PreampReg.datum w.chip)
        (PreampReg.datum (cachePhantom w.chip).quiet) (preampRegs (cachePhantom w.chip).quiet) :=
      preampRegs_follows rfl rfl
    rw [hrun]
    rw [← datum_congr hview] at hf
    exact ⟨hl', _, hw, hf⟩
  have hnotify : ∀ old, Bus.Relates Coheres (phantomNotify old) := fun old => by
    refine coheres_of_frames (X := fun _ => True) ?_
    exact hF.bind hF.get fun _ => hF.bind (hF.when _ fun _ => hF.notify _) fun _ =>
      hF.bind (hF.when _ fun _ => hF.notify _) fun _ => hF.modify fun _ => rfl
  unfold tickSet bfPanelSetPhantom
  refine hR.get fun w => hR.when _ (fun _ => ?_) w
  refine hR.get fun w => hR.ite _ (fun _ => hR.pure _) (fun _ => ?_) w
  exact hR.bind (hR.ignore hset) fun _ => hnotify _

/-- A poll's writes follow its changes, whatever it reads back. -/
theorem babyfacePanelWork_coheres (p : Poll) (t : ℤ) :
    Bus.Relates Coheres (babyfacePanelWork p t) := by
  have hR := coheres_linking
  have hF := Bus.Framing.view Chip.preampView
  have hW : WheelFrame (fun c d : Chip => d.preampView = c.preampView)
      fun x => ¬ x.1.isPreamp = true :=
    ⟨hF, fun _ _ => rfl, fun _ _ => word_not_preamp _ _ (by decide), fun _ _ => xreg_not_preamp _ _⟩
  have hmix : MixXfers fun x : Reg × Datum => ¬ x.1.isPreamp = true := by
    constructor <;> decide
  have hpanel : ∀ c d : Chip, d.toStream = c.toStream → d.toMixer = c.toMixer → d.eq = c.eq →
      d.preampView = c.preampView := fun c d _ hm _ => preampView_congr hm
  -- SET alone writes the byte; what comes before and after it stands aside.
  have hhead := coheres_of_frames (X := fun _ => True) (decodeHead_frames hW hpanel
    (fun _ _ _ _ => rfl) (fun _ _ _ _ _ => rfl) (fun _ _ => rfl) p)
  have hmid := coheres_of_frames (X := fun _ => True) (decodeMid_panel hW trivial hpanel p)
  have htail := coheres_of_frames (X := fun _ => True) (decodeTail_panel hW hmix hpanel p)
  have hmodify : ∀ f : Chip → Chip, (∀ c, (f c).preampView = c.preampView) →
      Bus.Relates Coheres (modify f : Usb Unit) := fun f hf =>
    coheres_of_frames (X := fun _ => True) (hF.modify hf)
  have hrecv : Bus.Relates Coheres (Bus.M.recv .usb () : Usb Unit) :=
    coheres_of_frames (hF.recv (X := fun _ => True) trivial ())
  have htick : Bus.Relates Coheres (bfPanelTick p) := by
    have hdecode : Bus.Relates Coheres (decode p) := by
      rw [decode_eq]
      exact hR.bind hhead fun _ => hR.bind hmid fun _ => hR.bind (tickSet_coheres p.st) fun _ => htail
    have hsnap : Bus.Relates Coheres (modify (snapshot p.st) : Usb Unit) := hmodify _ fun _ => rfl
    unfold bfPanelTick
    refine hR.bind (hR.attempt hrecv) fun _ => hR.when _ fun _ => hR.get fun w => ?_
    split
    · exact hdecode w
    · exact hsnap w
  -- A card that is shut down does not tick.
  unfold babyfacePanelWork
  refine hR.get fun w => hR.when _ (fun _ => hR.bind htick fun _ => ?_) w
  exact hmodify _ fun _ => rfl

/-! ## Replays -/

/-- Of the flags that a replay writes, link and AN 1>2 are the preamp's. -/
theorem last_flagRegs_preamp (c : Chip) (f : PreampReg) :
    last (flagRegs c) f.reg = last (linkRegs c.linked c.an12 c) f.reg := by
  have hf := f.isPreamp
  -- None of these blocks writes a preamp word.
  have hwidth : last (if c.width ≠ 0 then widthRegs c.width else []) f.reg = none :=
    Avoids.last_eq_none (.ite fun _ => widthRegs_not_preamp _) hf
  have hms : last (if c.ms_proc then msRegs else []) f.reg = none :=
    Avoids.last_eq_none (.ite fun _ => msRegs_not_preamp) hf
  have hdim : last (if c.dim then dimRegs true c else []) f.reg = none :=
    Avoids.last_eq_none (.ite fun _ => dimRegs_not_preamp true c) hf
  have hphase : last ((List.finRange 4).flatMap fun mic =>
      if c.phase mic then phaseRegs mic true c else []) f.reg = none :=
    Avoids.last_eq_none (.flatMap fun mic _ => .ite fun _ => phaseRegs_not_preamp mic true c) hf
  have hsplit : last ((List.finRange 6).flatMap fun pb =>
      if c.split pb then splitRegs pb true c else []) f.reg = none :=
    Avoids.last_eq_none (.flatMap fun pb _ => .ite fun _ => splitRegs_not_preamp pb true c) hf
  have htrim : last ([0, 2].flatMap fun mic =>
      if c.trim mic ≠ 0 then trimRegs mic (c.trim mic * 2) else []) f.reg = none :=
    Avoids.last_eq_none (.flatMap fun mic _ => .ite fun _ => trimRegs_not_preamp mic _) hf
  simp only [flagRegs, Registers.last_append, (loopbackRegs_not_preamp _ _).last_eq_none hf, hwidth,
    (fxRegs_not_preamp _).last_eq_none hf, hms, hdim, hphase, hsplit, htrim, Option.none_or,
    Option.or_none]

/-- Of the rest of a replay, the byte and its commit are. -/
theorem last_restoreRegs_preamp (c : Chip) (f : PreampReg) :
    last (restoreRegs c) f.reg = last (preampRegs c) f.reg := by
  have hf := f.isPreamp
  have hgain : last ((List.finRange 4).flatMap fun mic => gainRegs mic (c.gain mic).toNat) f.reg = none :=
    Avoids.last_eq_none (.flatMap fun mic _ => gainRegs_not_preamp mic _) hf
  have hout : last ((List.finRange 6).flatMap fun out =>
      outRegs out (c.muted out) false (c.master out 0) (c.master out 1)) f.reg = none :=
    Avoids.last_eq_none (.flatMap fun out _ => outRegs_not_preamp out _ _ _ _) hf
  have hblock : last ((List.finRange 6).flatMap fun out => blockRegs out (c.xpoint out)) f.reg = none :=
    Avoids.last_eq_none (.flatMap fun out _ => blockRegs_not_preamp out _) hf
  have hclock : Misses Reg.isPreamp (rateRegs clockRegs c) := rateRegs_misses (fun _ c =>
    .cons (word_not_preamp _ _ (by decide)) (settingsRegs_not_preamp c)) c
  simp only [restoreRegs, Registers.last_append, hgain, hout, hblock, hclock.last_eq_none hf,
    (pitchRegs_not_preamp _ c).last_eq_none hf, Option.none_or]

/-- After a replay the three registers hold the cached words: the commit of the cold init is not the
last. -/
theorem last_resumeRegs_preamp (c : Chip) (f : PreampReg) :
    last (resumeRegs c) f.reg = some (f.datum c) := by
  obtain ⟨hbyte, -, -⟩ := last_preampRegs c
  obtain ⟨hnone, hlink, hcommit⟩ := last_linkRegs c.linked c.an12 c
  rw [resumeRegs, Registers.last_append, Registers.last_append, Registers.last_append,
    last_flagRegs_preamp, last_restoreRegs_preamp]
  cases f with
  | byte => rw [hnone, Option.none_or, hbyte, Option.some_or, Option.some_or]; rfl
  | link => rw [hlink, Option.some_or, Option.some_or, Option.some_or]; rfl
  | commit => rw [hcommit, Option.some_or, Option.some_or, Option.some_or]; rfl

/-- A resume that got through changes no word, and sends them all. -/
theorem babyfaceResume_follows {jiffies : ℤ} {w w' : World} (hd : w.chip.DimSaved)
    (h : babyfaceResume jiffies w = (.ok (), w')) : w'.chip.toMixer = w.chip.toMixer ∧
      ∃ ws, w'.wire.map Xfer.write = w.wire.map Xfer.write ++ ws ∧
        Follows PreampReg.reg (PreampReg.datum w.chip) (PreampReg.datum w'.chip) ws := by
  unfold babyfaceResume at h
  obtain ⟨_, w₁, h₁, h⟩ := Bus.M.bind_eq_ok h
  cases h
  -- The replay leaves the mixer's cache as it was.
  obtain ⟨hreplayed, vs, hblocks, hwire⟩ := bfResumeLocked_run hd h₁
  have hmixer : (babyfacePanelStart jiffies w₁.chip).toMixer = w.chip.toMixer := hreplayed.mixer
  have hdatum := datum_congr (preampView_congr hmixer)
  refine ⟨hmixer, _, hwire, ?_⟩
  rw [hdatum]
  -- The blocks of the EQ come last, and are no preamp words.
  have hregs : Follows PreampReg.reg (PreampReg.datum w.chip) (PreampReg.datum w.chip)
      (resumeRegs w.chip.quiet) := .of_last fun f => by
    rw [last_resumeRegs_preamp, datum_congr (c := w.chip) (d := w.chip.quiet) rfl]
  have heq : Follows PreampReg.reg (PreampReg.datum w.chip) (PreampReg.datum w.chip) vs :=
    .of_avoids fun x hx ⟨f, hf⟩ => by
      obtain ⟨ch, b, rfl⟩ := hblocks x hx
      cases f <;> cases hf
  exact hregs.append heq

/-! ## The bits that a step names -/

/-- The bits of the preamp byte that a control stands for. -/
def Ctl.preampBits : Ctl → U16
  | .phantom mic => phantomBit mic
  | .pad mic => padBit mic
  | .refLevel => BF_PREAMP_REF_MASK
  | _ => 0

/-- The bits of the link word that a control stands for. -/
def Ctl.linkBits : Ctl → U16
  | .link => linkWord true false
  | .an12 => linkWord false true
  | _ => 0

/-- A step from the cache `c` to `d` that changes no bit but `bits` of the preamp byte and `linkBits` of
the link word, and the ref level only if `level` is set. -/
structure ChangesOnly (bits linkBits : U16) (level : Bool) (c d : Chip) : Prop where
  byte : (d.preamp ^^^ c.preamp) &&& ~~~bits = 0
  link : (linkWord d.linked d.an12 ^^^ linkWord c.linked c.an12) &&& ~~~linkBits = 0
  level : level = false → d.ref_level = c.ref_level

/-- A step that leaves the preamp's part of the cache alone. -/
theorem ChangesOnly.of_eq {bits linkBits : U16} {level : Bool} {c d : Chip}
    (h : d.preampView = c.preampView) : ChangesOnly bits linkBits level c d := by
  simp only [Chip.preampView, Prod.mk.injEq] at h
  obtain ⟨hbyte, hlevel, hlink, han12⟩ := h
  refine ⟨?_, ?_, fun _ => hlevel⟩
  · rw [hbyte, BitVec.xor_self, BitVec.zero_and]
    rfl
  · rw [hlink, han12, BitVec.xor_self, BitVec.zero_and]
    rfl

/-- The bits of a mask are those of before when none of them is among the bits that changed. -/
theorem and_eq_of_frame {v v' bits mask : U16} (h : (v' ^^^ v) &&& ~~~bits = 0)
    (hd : bits &&& mask = 0) : v' &&& mask = v &&& mask := by
  have hcases : ∀ a b s m : Bool, ((a ^^ b) && !s) = false → (s && m) = false → (a && m) = (b && m) := by
    decide
  ext i hi
  have hbit : ((v' ^^^ v) &&& ~~~bits)[i] = false := by
    rw [h]
    exact BitVec.getElem_zero hi
  have hoff : (bits &&& mask)[i] = false := by
    rw [hd]
    exact BitVec.getElem_zero hi
  simp only [BitVec.getElem_and, BitVec.getElem_xor, BitVec.getElem_not] at hbit hoff ⊢
  exact hcases _ _ _ _ hbit hoff

/-- A bit that is set or cleared leaves the others alone. -/
theorem setBit_frame (preamp bit : U16) (on : Bool) : (setBit preamp bit on ^^^ preamp) &&& ~~~bit = 0 := by
  obtain ⟨hor, hand, -⟩ := frame_bits preamp bit
  unfold setBit
  cases on
  · rw [if_neg (by decide)]
    exact hand
  · rw [if_pos rfl]
    exact hor

/-- The ref level's bits of a new level. -/
theorem cacheRefLevel_frame (item : ℕ) (c : Chip) :
    ((cacheRefLevel item c).preamp ^^^ c.preamp) &&& ~~~BF_PREAMP_REF_MASK = 0 := by
  obtain ⟨hor, hand, -⟩ := frame_bits c.preamp BF_PREAMP_REF_MASK
  have hset : ∀ p m : U16, p &&& ~~~m ||| m = p ||| m := fun p m => by
    ext i hi
    simp only [BitVec.getElem_or, BitVec.getElem_and, BitVec.getElem_not]
    cases p[i] <;> cases m[i] <;> decide
  unfold cacheRefLevel
  split
  · -- Both bits of the mask are set.
    have hbits : BF_PREAMP_REF_4DBU = BF_PREAMP_REF_MASK := rfl
    rw [hbits, hset]
    exact hor
  · have hzero : ∀ p : U16, p ||| 0 = p := fun p => BitVec.or_zero
    rw [hzero]
    exact hand

/-- A put's change of the cache is in the bits of its control. -/
theorem Setting.changesOnly {ctl : Ctl} {x : ElemValue} {s : Setting} (h : ctl.setting x = some s)
    (c : Chip) : ChangesOnly ctl.preampBits ctl.linkBits (ctl = .refLevel) c (s.cache c) := by
  have hlink : ∀ l l' b : Bool,
      (linkWord l b ^^^ linkWord l' b) &&& ~~~linkWord true false = 0 ∧
        (linkWord b l ^^^ linkWord b l') &&& ~~~linkWord false true = 0 := by decide
  have hsame : ∀ v m : U16, (v ^^^ v) &&& ~~~m = 0 := fun v m => by
    rw [BitVec.xor_self]
    exact BitVec.zero_and
  cases ctl <;> simp only [Ctl.setting, Option.ite_none_right_eq_some, Option.some.injEq,
    reduceCtorEq] at h
  case phantom mic =>
    subst h
    exact ⟨setBit_frame _ _ _, hsame _ _, fun _ => rfl⟩
  case pad mic =>
    subst h
    exact ⟨setBit_frame _ _ _, hsame _ _, fun _ => rfl⟩
  case refLevel =>
    obtain ⟨-, rfl⟩ := h
    exact ⟨cacheRefLevel_frame _ c, hsame _ _, fun hn => by simp at hn⟩
  case an12 =>
    subst h
    exact ⟨hsame _ _, (hlink _ _ _).2, fun _ => rfl⟩
  case link =>
    subst h
    exact ⟨hsame _ _, (hlink _ _ _).1, fun _ => rfl⟩
  -- The others leave the preamp's part of the cache alone.
  case master => obtain ⟨-, rfl⟩ := h; exact .of_eq rfl
  case mute => subst h; exact .of_eq rfl
  case xpoint => obtain ⟨-, rfl⟩ := h; exact .of_eq rfl
  case phase => subst h; exact .of_eq rfl
  case split => subst h; exact .of_eq rfl
  case trim => obtain ⟨-, rfl⟩ := h; exact .of_eq rfl
  case gain => obtain ⟨-, rfl⟩ := h; exact .of_eq rfl
  case pitch => obtain ⟨-, rfl⟩ := h; exact .of_eq rfl
  case loopback => subst h; exact .of_eq rfl
  case clock => obtain ⟨-, rfl⟩ := h; exact .of_eq rfl
  case optical => obtain ⟨-, rfl⟩ := h; exact .of_eq rfl
  case ms => subst h; exact .of_eq rfl
  case dim => subst h; exact .of_eq rfl
  case width => obtain ⟨-, rfl⟩ := h; exact .of_eq rfl
  case fxSend => obtain ⟨-, rfl⟩ := h; exact .of_eq rfl
  case eq => obtain ⟨-, rfl⟩ := h; exact .of_eq rfl

/-- With no failure to come, a put's change is in the bits of its control. -/
theorem bfPut_changesOnly (k : Clock) (x : ElemValue) (ctl : Ctl) {w : World} (hl : Live w) :
    ChangesOnly ctl.preampBits ctl.linkBits (ctl = .refLevel) w.chip (bfPut k x ctl w).2.chip := by
  obtain ⟨s, hs, hh⟩ | ⟨pair, rfl⟩ | ⟨-, hr⟩ := bfPut_cases k x ctl
  · obtain ⟨-, hp⟩ | ⟨-, w', hp, hc, -, -⟩ := hh.run_live hl
    · rw [hp]
      exact .of_eq rfl
    · rw [hp]
      obtain ⟨hbyte, hlink, hlevel⟩ := Setting.changesOnly hs w.chip.quiet
      rw [Chip.quiet_eq hc]
      exact ⟨hbyte, hlink, hlevel⟩
  · have hk : Keeps (fun c d : Chip => d.preampView = c.preampView) (bfPanelSelectPut k pair x.item) :=
      bfPanelSelectPut_frames (Bus.Framing.view Chip.preampView)
        (fun c d hm _ => preampView_congr hm) k pair _
    exact .of_eq (hk.state w)
  · obtain ⟨e, -, hp⟩ := hr w
    rw [hp]
    exact .of_eq rfl

/-- What the preamp's part of the cache may change in by a poll from `c` to `d`: by SET only, and in the
48V bits of the selected microphones. -/
structure PressChanges (st : Readback) (c d : Chip) : Prop where
  /-- Without an effective press the byte stays. -/
  press : d.preamp ≠ c.preamp → SetActs st c d
  only : ChangesOnly (phantomBits d) 0 false c d

/-- A poll changes of the preamp what its SET press asks for. -/
theorem babyfacePanelWork_changes (p : Poll) (t : ℤ) {w : World} (h : w.chip.SelTracked) :
    PressChanges p.st w.chip (babyfacePanelWork p t w).2.chip := by
  obtain ⟨w', ws, hrun, -, -, hsafe⟩ := babyfacePanelWork_safe p t h
  have hview := (babyfacePanelWork_frames
    (Bus.Framing.view fun c : Chip => (c.ref_level, c.linked, c.an12)) (fun c d _ hm _ => by rw [hm])
    (fun _ _ _ _ => rfl) (fun _ _ _ _ _ => rfl) (fun _ _ => rfl) (fun _ _ => rfl) p t).state w
  rw [hrun] at hview ⊢
  simp only [Prod.mk.injEq] at hview
  obtain ⟨hlevel, hlink, han12⟩ := hview
  refine ⟨fun hne => hsafe.set (.inl hne), ?_, ?_, fun _ => hlevel⟩
  · obtain hsame | htoggled := hsafe.cached
    · rw [hsame, BitVec.xor_self]
      exact BitVec.zero_and
    · exact htoggled.frame
  · rw [hlink, han12, BitVec.xor_self]
    rfl

/-! ## The ref level's bits -/

/-- The ref level's bits of the byte are both set at +4 dBu, and both clear at the other levels. -/
def Chip.RefBits (c : Chip) : Prop :=
  c.preamp &&& BF_PREAMP_REF_MASK = if c.ref_level = BF_REF_LEVEL_4DBU then BF_PREAMP_REF_4DBU else 0

/-- A step that changes neither the level nor its bits. -/
theorem Chip.RefBits.of_changesOnly {bits linkBits : U16} {c d : Chip} (h : c.RefBits)
    (hc : ChangesOnly bits linkBits false c d) (hd : bits &&& BF_PREAMP_REF_MASK = 0) : d.RefBits := by
  unfold Chip.RefBits
  rw [and_eq_of_frame hc.byte hd, hc.level rfl]
  exact h

/-- A new level comes with its bits. -/
theorem cacheRefLevel_refBits (item : ℕ) (c : Chip) : (cacheRefLevel item c).RefBits := by
  have hbits : ∀ v : U16, (v &&& ~~~BF_PREAMP_REF_MASK ||| BF_PREAMP_REF_4DBU) &&& BF_PREAMP_REF_MASK =
      BF_PREAMP_REF_4DBU ∧ (v &&& ~~~BF_PREAMP_REF_MASK ||| 0) &&& BF_PREAMP_REF_MASK = 0 := fun v => by
    rw [BitVec.and_or_distrib_right, BitVec.and_or_distrib_right, BitVec.and_assoc]
    have hclear : ~~~BF_PREAMP_REF_MASK &&& BF_PREAMP_REF_MASK = 0 := by decide
    have hzero : v &&& 0 = 0 := BitVec.and_zero
    have hor : ∀ u : U16, 0 ||| u = u := fun u => BitVec.zero_or
    rw [hclear, hzero, hor, hor]
    decide
  show (c.preamp &&& ~~~BF_PREAMP_REF_MASK ||| (if item = BF_REF_LEVEL_4DBU then BF_PREAMP_REF_4DBU else 0))
    &&& BF_PREAMP_REF_MASK = if item = BF_REF_LEVEL_4DBU then BF_PREAMP_REF_4DBU else 0
  split
  · exact (hbits c.preamp).1
  · exact (hbits c.preamp).2

/-- Only the ref level's control has bits of the ref level. -/
theorem Ctl.preampBits_ref {ctl : Ctl} (h : ctl ≠ .refLevel) :
    ctl.preampBits &&& BF_PREAMP_REF_MASK = 0 := by
  have hphantom : ∀ mic, phantomBit mic &&& BF_PREAMP_REF_MASK = 0 := by decide
  have hpad : ∀ mic, padBit mic &&& BF_PREAMP_REF_MASK = 0 := by decide
  cases ctl with
  | phantom mic => exact hphantom mic
  | pad mic => exact hpad mic
  | refLevel => exact absurd rfl h
  | _ => exact BitVec.zero_and

/-- A put leaves the level bits in agreement with the level. -/
theorem bfPut_refBits (k : Clock) (x : ElemValue) (ctl : Ctl) {w : World} (hl : Live w)
    (h : w.chip.RefBits) : (bfPut k x ctl w).2.chip.RefBits := by
  -- Only the ref level's own put touches its bits.
  by_cases hctl : ctl = .refLevel
  · subst hctl
    obtain ⟨s, hs, hh⟩ | ⟨pair, hp⟩ | ⟨-, hr⟩ := bfPut_cases k x .refLevel
    · obtain ⟨-, hp⟩ | ⟨-, w', hp, hc, -, -⟩ := hh.run_live hl
      · rw [hp]
        exact h
      · rw [hp, Chip.quiet_eq hc]
        simp only [Ctl.setting, Option.ite_none_right_eq_some, Option.some.injEq] at hs
        obtain ⟨-, rfl⟩ := hs
        exact cacheRefLevel_refBits x.item w.chip.quiet
    · cases hp
    · obtain ⟨e, -, hp⟩ := hr w
      rw [hp]
      exact h
  · have hchange := bfPut_changesOnly k x ctl hl
    rw [decide_eq_false hctl] at hchange
    exact h.of_changesOnly hchange (Ctl.preampBits_ref hctl)

/-- So does a poll, which touches 48V only. -/
theorem babyfacePanelWork_refBits (p : Poll) (t : ℤ) {w : World} (ht : w.chip.SelTracked)
    (h : w.chip.RefBits) : (babyfacePanelWork p t w).2.chip.RefBits := by
  have hbits : ∀ c : Chip, phantomBits c &&& BF_PREAMP_REF_MASK = 0 := fun c => by
    unfold phantomBits
    split <;> split <;> decide
  exact h.of_changesOnly (babyfacePanelWork_changes p t ht).only (hbits _)

/-! ## A card after its probe -/

/-- What a card whose transfers get through does after its probe: puts of the controls, polls of the
panel, and replays. -/
inductive PreampStep : World → World → Prop
  | put (k : Clock) (x : ElemValue) (ctl : Ctl) (w : World) : PreampStep w (bfPut k x ctl w).2
  | poll (p : Poll) (t : ℤ) (w : World) : PreampStep w (babyfacePanelWork p t w).2
  | resume {jiffies : ℤ} {w w' : World} (h : babyfaceResume jiffies w = (.ok (), w')) : PreampStep w w'

/-- Such a step is a step of the card. -/
theorem PreampStep.card {w w' : World} (hs : PreampStep w w') : CardStep w w' := by
  cases hs with
  | put k x ctl => exact .put k x ctl w
  | poll p t => exact .poll p t w
  | @resume jiffies _ _ h =>
    have hstep : CardStep w (babyfaceResume jiffies w).2 := .resume jiffies w
    rwa [h] at hstep

/-- The preamp's registers hold what the cache says, where `st0` is the byte that the probe read. Of it
count the bits that the driver knows. -/
structure PreampOnWire (st0 : U8) (w : World) : Prop where
  /-- The byte last written, or read at probe. -/
  byte : (last (w.wire.map Xfer.write) preampReg).getD (.word (st0.setWidth 16 &&& preampMask)) =
    .word w.chip.preamp
  /-- The bits of the ref level. -/
  level : w.chip.RefBits
  /-- The word last written for link and AN 1>2. -/
  link : last (w.wire.map Xfer.write) (.ctl BF_REQ_PREAMP 0x1000) =
    some (.word (linkWord w.chip.linked w.chip.an12))
  /-- The commit last written: `3` for Boost, else `0`. -/
  commit : last (w.wire.map Xfer.write) (.ctl BF_REQ_PREAMP_COMMIT 0x0000) =
    some (.word (if w.chip.ref_level = BF_REF_LEVEL_BOOST then 0x0003 else 0x0000))

/-- What holds after the probe and at all times after it. -/
structure PreampSafe (st0 : U8) (w : World) : Prop where
  live : Live w
  sound : w.chip.Sound
  tracked : w.chip.SelTracked
  wire : PreampOnWire st0 w

/-- Writes that follow the cache keep it on the wire. -/
theorem PreampOnWire.of_follows {st0 : U8} {w w' : World} (h : PreampOnWire st0 w) {ws : List (Reg × Datum)}
    (hw : w'.wire.map Xfer.write = w.wire.map Xfer.write ++ ws)
    (hf : Follows PreampReg.reg (PreampReg.datum w.chip) (PreampReg.datum w'.chip) ws)
    (hb : w'.chip.RefBits) : PreampOnWire st0 w' where
  byte := by
    rw [hw]
    exact hf.getD_append (i := .byte) h.byte
  level := hb
  link := by
    rw [hw]
    exact hf.last_append (i := .link) h.link
  commit := by
    rw [hw]
    exact hf.last_append (i := .commit) h.commit

/-- A step of a card whose registers hold what the cache says. -/
theorem PreampStep.safe {st0 : U8} {w w' : World} (hs : PreampStep w w') (h : PreampSafe st0 w) :
    PreampSafe st0 w' := by
  have hsound := hs.card.sound h.sound
  have htracked := hs.card.tracked h.tracked
  -- Each kind of step is followed on the wire, and keeps the level's bits in agreement.
  cases hs with
  | put k x ctl =>
    obtain ⟨hl, ws, hw, hf⟩ := bfPut_coheres k x ctl w h.live
    exact ⟨hl, hsound, htracked, h.wire.of_follows hw hf (bfPut_refBits k x ctl h.live h.wire.level)⟩
  | poll p t =>
    obtain ⟨hl, ws, hw, hf⟩ := babyfacePanelWork_coheres p t w h.live
    exact ⟨hl, hsound, htracked,
      h.wire.of_follows hw hf (babyfacePanelWork_refBits p t h.tracked h.wire.level)⟩
  | @resume jiffies _ _ hr =>
    have hframes : Keeps (fun _ _ => True) (babyfaceResume jiffies) :=
      babyfaceResume_keeps ⟨fun _ => trivial, fun _ _ => trivial⟩ (fun _ _ _ _ _ _ _ => trivial)
        (fun _ => trivial) (fun _ => trivial) (fun _ _ => trivial) fun _ => trivial
    have hl := hframes.live h.live
    rw [hr] at hl
    obtain ⟨hmixer, ws, hw, hf⟩ := babyfaceResume_follows h.sound.dim hr
    have hbits : w'.chip.RefBits := by
      unfold Chip.RefBits
      rw [hmixer]
      exact h.wire.level
    exact ⟨hl, hsound, htracked, h.wire.of_follows hw hf hbits⟩

/-- A probe writes link and AN 1>2, and the commit after them, and leaves the byte alone. -/
theorem last_probeRegs_preamp (st : Option U8) (p : Params) :
    last (probeRegs st p) preampReg = none ∧
      last (probeRegs st p) PreampReg.link.reg = some (PreampReg.link.datum (probedMixer st p)) ∧
      last (probeRegs st p) PreampReg.commit.reg = some (PreampReg.commit.datum (probedMixer st p)) := by
  obtain ⟨-, hlink, hcommit⟩ := last_linkRegs (probedMixer st p).linked (probedMixer st p).an12
    (probedMixer st p)
  have htail : ∀ {f : PreampReg} {v : Datum}, last (flagRegs (probedMixer st p)) f.reg = some v →
      last (probeRegs st p) f.reg = some v := fun h => by
    rw [probeRegs, Registers.last_append, Registers.last_append, Registers.last_append, h,
      Option.some_or, Option.some_or, Option.some_or]
  rw [← last_flagRegs_preamp] at hlink hcommit
  exact ⟨(probeRegs_not_kept st p).last_eq_none (by decide), htail hlink, htail hcommit⟩

/-- The level that a readback with both bits or neither stands for. -/
theorem cachePreamp_refBits {st0 : U8} (c : Chip)
    (h : st0.setWidth 16 &&& BF_PREAMP_REF_MASK = BF_PREAMP_REF_MASK ∨
      st0.setWidth 16 &&& BF_PREAMP_REF_MASK = 0) : (cachePreamp st0 c).RefBits := by
  have hmask : preampMask &&& BF_PREAMP_REF_MASK = BF_PREAMP_REF_MASK := by decide
  have hlevel : BF_REF_LEVEL_MINUS10DBV ≠ BF_REF_LEVEL_4DBU := by decide
  have hnone : (0 : U16) ≠ BF_PREAMP_REF_4DBU := by decide
  have hbits : st0.setWidth 16 &&& preampMask &&& BF_PREAMP_REF_MASK =
      st0.setWidth 16 &&& BF_PREAMP_REF_MASK := by rw [BitVec.and_assoc, hmask]
  show st0.setWidth 16 &&& preampMask &&& BF_PREAMP_REF_MASK =
    if (if st0.setWidth 16 &&& preampMask &&& BF_PREAMP_REF_MASK = BF_PREAMP_REF_4DBU then
      BF_REF_LEVEL_4DBU else BF_REF_LEVEL_MINUS10DBV) = BF_REF_LEVEL_4DBU then BF_PREAMP_REF_4DBU else 0
  rw [hbits]
  obtain hboth | hneither := h
  · have h4 : st0.setWidth 16 &&& BF_PREAMP_REF_MASK = BF_PREAMP_REF_4DBU := hboth
    rw [if_pos h4, if_pos rfl, h4]
  · rw [hneither, if_neg hnone, if_neg hlevel]

/-- After a probe whose readback got through. -/
theorem probe_preampOnWire {st0 : U8} {reprobe : Bool} {jiffies : ℤ} {p : Params} {usb : ℕ → Bool}
    {w : World} (h : babyfaceProbe st0 reprobe jiffies ⟨probeChip p, [], [], usb⟩ = (.ok (), w))
    (hread : preampRead st0 p usb = some st0)
    (href : st0.setWidth 16 &&& BF_PREAMP_REF_MASK = BF_PREAMP_REF_MASK ∨
      st0.setWidth 16 &&& BF_PREAMP_REF_MASK = 0) : PreampOnWire st0 w := by
  obtain ⟨hc, hw⟩ := babyfaceProbe_run_of h
  obtain ⟨hbyte, hlink, hcommit⟩ := last_probeRegs_preamp (preampRead st0 p usb) p
  -- The cache is the one that the byte read leaves.
  have hq : w.chip.quiet = (probedChip (preampRead st0 p usb) reprobe jiffies p).quiet := by
    rw [← hc, Chip.quiet_quiet]
  rw [hread] at hq hw hbyte hlink hcommit
  have hview : w.chip.preampView = (probedMixer (some st0) p).preampView := by
    rw [Chip.quiet_eq hq]
    rfl
  have hdatum : ∀ f : PreampReg, f.datum (probedMixer (some st0) p) = f.datum w.chip := fun f => by
    rw [datum_congr hview]
  have hcached : w.chip.preamp = st0.setWidth 16 &&& preampMask ∧
      w.chip.ref_level = (cachePreamp st0 (probeChip p)).ref_level := by
    rw [Chip.quiet_eq hq]
    exact ⟨rfl, rfl⟩
  refine ⟨?_, ?_, ?_, ?_⟩
  -- The byte, then the level's two bits, then the link word and the commit.
  · rw [hw, hbyte, Option.getD_none, hcached.1]
  · have hbits := cachePreamp_refBits (probeChip p) href
    unfold Chip.RefBits at hbits ⊢
    rw [hcached.1, hcached.2]
    exact hbits
  · rw [hw]
    exact hlink.trans (congrArg some (hdatum .link))
  · rw [hw]
    exact hcommit.trans (congrArg some (hdatum .commit))

/-- In every run after a probe whose readback got through and had both bits of the ref level or
neither, with no failed transfer: the preamp byte, the link word and the commit that the device was
left with are the cached ones, and each put and each press of SET changes only the bits it names. Of
the byte read at probe count the bits that the driver knows. -/
theorem preamp_matches_wire {st0 : U8} {reprobe : Bool} {jiffies : ℤ} {p : Params} {usb : ℕ → Bool}
    {w₀ w : World} (h : babyfaceProbe st0 reprobe jiffies ⟨probeChip p, [], [], usb⟩ = (.ok (), w₀))
    (hread : preampRead st0 p usb = some st0)
    (href : st0.setWidth 16 &&& BF_PREAMP_REF_MASK = BF_PREAMP_REF_MASK ∨
      st0.setWidth 16 &&& BF_PREAMP_REF_MASK = 0)
    (hrun : Relation.ReflTransGen PreampStep { w₀ with usb := fun _ => true } w) :
    PreampOnWire st0 w ∧
      (∀ k x ctl, ChangesOnly ctl.preampBits ctl.linkBits (ctl = .refLevel) w.chip
        (bfPut k x ctl w).2.chip) ∧
      (∀ poll t, PressChanges poll.st w.chip (babyfacePanelWork poll t w).2.chip) ∧
      ∀ t w', babyfaceResume t w = (.ok (), w') → w'.chip.preampView = w.chip.preampView := by
  have hp : Probed st0 reprobe jiffies p w₀ := ⟨usb, h⟩
  -- The invariant holds after the probe, and each step keeps it.
  have hsafe : PreampSafe st0 w := by
    induction hrun with
    | refl =>
      have hwire := probe_preampOnWire h hread href
      exact ⟨fun _ => rfl, hp.sound, hp.tracked, hwire.byte, hwire.level, hwire.link, hwire.commit⟩
    | tail _ hs ih => exact hs.safe ih
  refine ⟨hsafe.wire, fun k x ctl => bfPut_changesOnly k x ctl hsafe.live,
    fun poll t => babyfacePanelWork_changes poll t hsafe.tracked, fun t w' hr => ?_⟩
  exact preampView_congr (babyfaceResume_follows hsafe.sound.dim hr).1

/-- A card whose readback shows +4 dBu, 48V on the first microphone, and a bit that the driver does not
know, after a put of Boost. -/
theorem preamp_matches_wire_boost : ∃ w₀ w,
    babyfaceProbe 0x8d false 0 ⟨probeChip {}, [], [], fun _ => true⟩ = (.ok (), w₀) ∧
      w = (bfPut clock0 { item := 2 } .refLevel { w₀ with usb := fun _ => true }).2 ∧
      PreampOnWire 0x8d w ∧ w.chip.preamp = 0x0001 := by
  obtain ⟨_, hrun⟩ := eq_of_isOk (x := babyfaceProbe 0x8d false 0 ⟨probeChip {}, [], [], fun _ => true⟩)
    (by decide +kernel)
  have hsafe := preamp_matches_wire hrun (by decide +kernel) (.inl (by decide))
    (.single (.put clock0 { item := 2 } .refLevel _))
  exact ⟨_, _, hrun, rfl, hsafe.1, by decide +kernel⟩

/-- A bit of the readback that the driver does not know is not cached, and a put of DIM writes none. -/
theorem preamp_readback_masked : ∃ usb w₀ w,
    babyfaceProbe 0x8c false 0 ⟨probeChip {}, [], [], usb⟩ = (.ok (), w₀) ∧
      preampRead 0x8c {} usb = some 0x8c ∧
      (0x8c : U8).setWidth 16 &&& BF_PREAMP_REF_MASK = BF_PREAMP_REF_MASK ∧
      w = (bfPut clock0 { value := fun _ => 1 } .dim { w₀ with usb := fun _ => true }).2 ∧
      (last (w.wire.map Xfer.write) preampReg).getD (.word ((0x8c : U8).setWidth 16)) ≠
        .word w.chip.preamp := by
  obtain ⟨_, hrun⟩ := eq_of_isOk (x := babyfaceProbe 0x8c false 0 ⟨probeChip {}, [], [], fun _ => true⟩)
    (by decide +kernel)
  exact ⟨_, _, _, hrun, by decide +kernel, by decide, rfl, by decide +kernel⟩

end BabyfacePro
