import BabyfacePro.Core.EqRange
import BabyfacePro.Core.Replay
import BabyfacePro.Eq.Block
import BabyfacePro.Lib.Relates
import BabyfacePro.Stream.Pcm

/-!
# The EQ on the device

The words of a strip are computed and uploaded in three places: by a put of one of its parameters, and
for every strip by a change of the rate and by a resume. Without failed uploads, a strip that was uploaded
at least once is up to date after every step: its cached words are those of its parameters at the rate of
the device, and the last block of each of its channels carries them.
-/

namespace BabyfacePro

open Registers (last Avoids)
open Bus.M (get modify)

/-! ## The blocks of a strip on the wire -/

/-- The strips have channels of their own. -/
theorem eqCh_inj : ∀ (strip strip' : Mic) (side side' : Side),
    eqCh strip side = eqCh strip' side' → strip = strip' ∧ side = side' := by decide

/-- A strip's upload ends with both its blocks. -/
theorem last_eqRegs_self (strip : Mic) (side : Side) (e : EqChannel) :
    last (eqRegs strip e) (.eq (eqCh strip side)) = some (.block (e.block (eqCh strip side))) := by
  refine Registers.last_eq_some ?_ fun x hx hch => ?_
  · exact List.mem_map.mpr ⟨_, List.mem_map_of_mem (List.mem_finRange side), rfl⟩
  · obtain ⟨side', -, rfl⟩ := List.mem_map.mp hx
    rw [(eqCh_inj _ _ _ _ (Reg.eq.inj hch)).2]

/-- It writes no block of another strip. -/
theorem last_eqRegs_other {strip strip' : Mic} (h : strip' ≠ strip) (side : Side) (e : EqChannel) :
    last (eqRegs strip e) (.eq (eqCh strip' side)) = none := by
  refine Registers.last_eq_none fun hm => ?_
  obtain ⟨x, hx, hch⟩ := List.mem_map.mp hm
  obtain ⟨side', -, rfl⟩ := List.mem_map.mp hx
  exact h (eqCh_inj _ _ _ _ (Reg.eq.inj hch)).1.symm

/-- The upload of every strip leaves each of them its own blocks. -/
theorem last_eqRegs_all (f : Mic → EqChannel) (strip : Mic) (side : Side) :
    last ((List.finRange 4).flatMap fun strip => eqRegs strip (f strip)) (.eq (eqCh strip side)) =
      some (.block ((f strip).block (eqCh strip side))) := by
  have hothers : ∀ strip' ∈ List.finRange 4, strip' ≠ strip →
      Avoids (fun a => a = .eq (eqCh strip side)) (eqRegs strip' (f strip')) := by
    intro strip' _ hne x hx hch
    obtain ⟨side', -, rfl⟩ := List.mem_map.mp hx
    exact hne (eqCh_inj _ _ _ _ (Reg.eq.inj hch)).1
  rw [Registers.last_flatMap_of_mem (List.mem_finRange strip) hothers, last_eqRegs_self]

/-! ## The upload of every strip -/

/-- The words of every strip, computed anew. -/
def recomputeAll (c : Chip) : Chip := { c with eq := fun strip => (c.eq strip).recompute c.eqFs }

/-- The strips one by one are all of them. -/
theorem foldl_recomputeStrip (c : Chip) :
    (List.finRange 4).foldl (fun c strip => recomputeStrip strip c) c = recomputeAll c := by
  have heq : ((List.finRange 4).foldl (fun c strip => recomputeStrip strip c) c).eq =
      (recomputeAll c).eq := by
    funext strip
    fin_cases strip <;> rfl
  calc (List.finRange 4).foldl (fun c strip => recomputeStrip strip c) c
      = { c with eq := ((List.finRange 4).foldl (fun c strip => recomputeStrip strip c) c).eq } := rfl
    _ = recomputeAll c := by rw [heq]; rfl

/-- The blocks of the strips with their words computed anew. -/
def reuploadRegs (c : Chip) : List (Reg × Datum) :=
  (List.finRange 4).flatMap fun strip => eqRegs strip ((c.eq strip).recompute c.eqFs)

/-- The upload of all strips computes their words and sends them. -/
theorem bfEqReupload_does :
    Bus.Does Chip.quiet Xfer.write bfEqReupload recomputeAll reuploadRegs fun _ => [] := by
  -- One strip: its words are computed and sent, and an error is ignored.
  have hstrip : ∀ strip, Bus.Does Chip.quiet Xfer.write
      (do let _ ← Bus.M.attempt (bfEqUpdateStrip strip)) (recomputeStrip strip)
      (fun c => eqRegs strip ((c.eq strip).recompute c.eqFs)) fun _ => [] := by
    intro strip
    have hset : Bus.Does (ε := Errno) Chip.quiet Xfer.write (modify (recomputeStrip strip))
        (recomputeStrip strip) (fun _ => []) fun _ => ([] : List Ctl) := Bus.Does.modify fun _ => rfl
    have hsend := Bus.Does.ignore Chip.quiet_quiet (bfEqWriteStrip_writes strip)
    have h := hset.seq hsend fun _ => rfl
    simp only [List.nil_append] at h
    have hregs : (fun c : Chip => eqRegs strip (((recomputeStrip strip c).quiet).eq strip)) =
        fun c : Chip => eqRegs strip ((c.eq strip).recompute c.eqFs) := by
      funext c
      simp only [Chip.quiet, recomputeStrip, Function.update_self]
    rw [hregs] at h
    exact h
  -- A strip's upload is seen by no other strip.
  have hapart : ∀ (a b : Mic) (c : Chip), b ≠ a →
      eqRegs b (((recomputeStrip a c).quiet.eq b).recompute (recomputeStrip a c).quiet.eqFs) =
        eqRegs b ((c.eq b).recompute c.eqFs) := by
    intro a b c hne
    have hb : (recomputeStrip a c).quiet.eq b = c.eq b := Function.update_of_ne hne _ _
    rw [hb]
    rfl
  have hall := Bus.Does.each Chip.quiet_quiet (fun _ _ => rfl) (List.nodup_finRange 4)
    (fun strip _ => hstrip strip) fun a b c hne => ⟨hapart a b c hne, rfl⟩
  simp only [foldl_recomputeStrip] at hall
  exact hall

/-! ## Strips that are up to date -/

/-- No block of the strip was sent. -/
def Unsent (wire : List Xfer) (strip : Mic) : Prop :=
  ∀ side, last (wire.map Xfer.write) (.eq (eqCh strip side)) = none

/-- The cached words of the strip are those of its parameters at the current rate, and its channels were
last sent them. -/
structure UpToDate (c : Chip) (wire : List Xfer) (strip : Mic) : Prop where
  words : c.eq strip = (c.eq strip).recompute c.eqFs
  sent (side : Side) : last (wire.map Xfer.write) (.eq (eqCh strip side)) =
    some (.block ((c.eq strip).block (eqCh strip side)))

/-- What holds between the steps of a run without failed uploads. -/
structure EqSynced (c : Chip) (wire : List Xfer) : Prop where
  admits : c.EqAdmits
  rate : ∃ r ∈ bfRates, r.rate = c.rate
  strips (strip : Mic) : Unsent wire strip ∨ UpToDate c wire strip

/-- The strips, the rate and the blocks that were sent decide. -/
theorem EqSynced.congr {c c' : Chip} {wire wire' : List Xfer} (h : EqSynced c wire) (he : c'.eq = c.eq)
    (hr : c'.rate = c.rate)
    (hw : ∀ ch, last (wire'.map Xfer.write) (.eq ch) = last (wire.map Xfer.write) (.eq ch)) :
    EqSynced c' wire' where
  admits := h.admits.congr he
  rate := by rw [hr]; exact h.rate
  strips strip := by
    have hfs : c'.eqFs = c.eqFs := by unfold Chip.eqFs; rw [hr]
    rcases h.strips strip with hun | ⟨hwords, hsent⟩
    · exact .inl fun side => (hw _).trans (hun side)
    · refine .inr ⟨?_, fun side => ?_⟩
      · rw [he, hfs]
        exact hwords
      · rw [hw, he]
        exact hsent side

/-- What leaves the strips and the rate alone and sends no block keeps the strips up to date. -/
theorem EqSynced.extend {c c' : Chip} {wire wire' : List Xfer} (h : EqSynced c wire) (he : c'.eq = c.eq)
    (hr : c'.rate = c.rate) (hw : ∃ vs, wire' = wire ++ vs ∧ ∀ b, .bulk b ∉ vs) : EqSynced c' wire' := by
  obtain ⟨vs, rfl, hblock⟩ := hw
  refine h.congr he hr fun ch => ?_
  have hnone : last (vs.map Xfer.write) (.eq ch) = none := by
    refine Registers.last_eq_none fun hm => ?_
    obtain ⟨x, hx, hch⟩ := List.mem_map.mp hm
    obtain ⟨t, ht, rfl⟩ := List.mem_map.mp hx
    cases t with
    | bulk b => exact hblock b ht
    | ctl => cases hch
    | setInterface => cases hch
  rw [List.map_append, Registers.last_append, hnone, Option.none_or]

/-- The state without failed transfers to come, once every strip was uploaded. -/
theorem bfEqReupload_synced {w : World} (hl : ∀ i, w.usb i = true) (ha : w.chip.EqAdmits)
    (hr : ∃ r ∈ bfRates, r.rate = w.chip.rate) :
    EqSynced (bfEqReupload w).2.chip (bfEqReupload w).2.wire := by
  obtain ⟨w', hrun, hc, hw, -⟩ := bfEqReupload_does.run_live hl
  have heq : w'.chip.eq = (recomputeAll w.chip).eq := by
    have hq := congrArg Chip.eq hc
    exact hq
  have hrate : w'.chip.rate = w.chip.rate := by
    have hq := congrArg (fun c : Chip => c.rate) hc
    exact hq
  have hfs : w'.chip.eqFs = w.chip.eqFs := by unfold Chip.eqFs; rw [hrate]
  rw [hrun]
  -- After the upload each strip has its words, and the last block of each channel is its own.
  refine ⟨fun strip => ?_, by rw [hrate]; exact hr, fun strip => .inr ⟨?_, fun side => ?_⟩⟩
  · rw [heq]
    exact (ha strip).recompute _
  · rw [heq, hfs]
    rfl
  · have hreupload : last (reuploadRegs w.chip.quiet) (.eq (eqCh strip side)) = _ :=
      last_eqRegs_all _ strip side
    rw [hw, Registers.last_append, hreupload, Option.some_or, heq]
    rfl

/-! ## The three paths -/

/-- A new rate uploads every strip; one that the interface refuses changes nothing. -/
theorem bfRetune_synced {w : World} (h : EqSynced w.chip w.wire) (hl : ∀ i, 0 < i → w.usb i = true)
    {r : BfRate} (hr : r ∈ bfRates) : EqSynced (bfRetune r w).2.chip (bfRetune r w).2.wire := by
  unfold bfRetune
  cases h0 : w.usb 0 with
  | false =>
    have hset : usbSetInterface r.alt w = (.error .usb, { w with usb := Bus.shift w.usb 1 }) :=
      if_neg (by simp [h0])
    rw [Bus.M.bind_of_error hset]
    exact h
  | true =>
    have hset : usbSetInterface r.alt w =
        (.ok (), { w with wire := w.wire ++ [.setInterface r.alt], usb := Bus.shift w.usb 1 }) :=
      if_pos h0
    rw [Bus.M.bind_of_ok hset, Bus.M.bind_of_ok (Bus.M.modify_run _ _)]
    refine bfEqReupload_synced (fun i => ?_) (h.admits.congr rfl) ⟨r, hr, rfl⟩
    exact hl _ (by omega)

/-- The strip of a put is up to date after it; the blocks of the others stay. -/
theorem EqSynced.put {c : Chip} {wire : List Xfer} (h : EqSynced c wire) {strip : Mic} {p : EqParam} {v : ℤ}
    (ha : (cacheEq strip p v c).EqAdmits) {c' : Chip} {wire' : List Xfer}
    (hc : c'.quiet = (cacheEq strip p v c).quiet)
    (hw : wire'.map Xfer.write = wire.map Xfer.write ++ eqRegs strip ((cacheEq strip p v c).eq strip)) :
    EqSynced c' wire' := by
  have heq : c'.eq = (cacheEq strip p v c).eq := by
    have hq := congrArg Chip.eq hc
    exact hq
  have hrate : c'.rate = c.rate := by
    have hq := congrArg (fun c : Chip => c.rate) hc
    exact hq
  have hfs : c'.eqFs = c.eqFs := by unfold Chip.eqFs; rw [hrate]
  refine ⟨ha.congr heq, by rw [hrate]; exact h.rate, fun strip' => ?_⟩
  -- The strip that is put is up to date at once.
  by_cases hs : strip' = strip
  · subst hs
    refine .inr ⟨?_, fun side => ?_⟩
    · rw [heq, hfs]
      simp only [cacheEq, recomputeStrip, Function.update_self]
      rfl
    · rw [hw, Registers.last_append, last_eqRegs_self, Option.some_or, heq]
  -- The others keep their words and their last blocks.
  · have hother : c'.eq strip' = c.eq strip' := by
      rw [heq]
      simp only [cacheEq, recomputeStrip, Function.update_of_ne hs]
    have hlast : ∀ side, last (wire'.map Xfer.write) (.eq (eqCh strip' side)) =
        last (wire.map Xfer.write) (.eq (eqCh strip' side)) := fun side => by
      rw [hw, Registers.last_append, last_eqRegs_other hs, Option.none_or]
    rcases h.strips strip' with hun | ⟨hwords, hsent⟩
    · exact .inl fun side => (hlast side).trans (hun side)
    · refine .inr ⟨?_, fun side => ?_⟩
      · rw [hother, hfs]
        exact hwords
      · rw [hlast, hother]
        exact hsent side

/-- A put of a parameter uploads its strip, if it changes anything. -/
theorem bfEqPut_synced {w : World} (h : EqSynced w.chip w.wire) (hl : ∀ i, w.usb i = true) (strip : Mic)
    (p : EqParam) (value : ℤ) (item : ℕ) :
    EqSynced (bfEqPut strip p value item w).2.chip (bfEqPut strip p value item w).2.wire := by
  -- A value in the range is cached with the strip's new words, and the blocks go out.
  by_cases hrange : p.min ≤ p.arg value item ∧ p.arg value item ≤ p.max
  · have hset : (w.chip.eq strip).Admits := h.admits strip
    have hadmits : (cacheEq strip p (p.stored (p.arg value item)) w.chip.quiet).EqAdmits :=
      (Chip.EqAdmits.update (c := w.chip.quiet) (fun s => h.admits s) strip
        (hset.setParam hrange)).recomputeStrip strip
    rcases (bfEqPut_handles strip p hrange).run_live hl with ⟨-, hrun⟩ | ⟨-, w', hrun, hc, hw, -⟩
    · rw [hrun]
      exact h
    · rw [hrun]
      have hquiet : EqSynced w.chip.quiet w.wire := h.congr rfl rfl fun _ => rfl
      exact hquiet.put hadmits hc hw
  -- Another value is refused before anything is done.
  · have hrefused : bfEqPut strip p value item = Bus.M.throw .einval := by
      unfold bfEqPut
      exact if_pos (by omega)
    rw [hrefused]
    exact h

/-! ## A replay without failed transfers -/

section Lives

variable {P : Chip → Prop}

/-- What is written for a rate of the table. -/
theorem withRate_lives (hrate : ∀ c, P c → (bfRateLookup c.rate).isSome = true) {f : BfRate → Usb Unit}
    (h : ∀ r, Bus.Lives P (f r)) : Bus.Lives P (withRate f) := by
  refine Bus.Lives.get fun c hc => ?_
  cases hr : bfRateLookup c.rate with
  | none =>
    have hsome := hrate c hc
    rw [hr] at hsome
    cases hsome
  | some r => exact h r

/-- The clock's write goes through at a rate of the table. -/
theorem bfClockWrite_lives (hq : ∀ c d : Chip, d.quiet = c.quiet → P c → P d)
    (hrate : ∀ c, P c → (bfRateLookup c.rate).isSome = true) : Bus.Lives P bfClockWrite :=
  withRate_lives hrate fun _ => ((bfVendorWrite_writes _ _ (by decide)).seq bfSettingsWrite_writes).lives hq

/-- So does the cold init. -/
theorem bfColdInit_lives (hq : ∀ c d : Chip, d.quiet = c.quiet → P c → P d)
    (hrate : ∀ c, P c → (bfRateLookup c.rate).isSome = true) : Bus.Lives P bfColdInit :=
  (clear_writes.lives hq).bind fun _ => Bus.Lives.get fun c _ =>
    ((bfPitchWrite_writes c.pitch).lives hq).bind fun _ =>
      ((bfVendorWrite_writes _ _ (by decide)).lives hq).bind fun _ =>
        withRate_lives hrate fun r => (writeInit_writes r).lives hq

/-- So does the replay. -/
theorem babyfaceRestoreState_lives (hq : ∀ c d : Chip, d.quiet = c.quiet → P c → P d)
    (hrate : ∀ c, P c → (bfRateLookup c.rate).isSome = true) : Bus.Lives P babyfaceRestoreState := by
  refine (bfPreampStateWrite_writes.lives hq).bind fun _ => ?_
  refine (Bus.Lives.each _ fun mic _ => Bus.Lives.get fun _ _ =>
    (bfVendorWrite_writes _ _ (by decide)).lives hq).bind fun _ => ?_
  refine (bfApplyMasters_writes.lives hq).bind fun _ => ?_
  refine (Bus.Lives.each _ fun out _ => Bus.Lives.get fun _ _ =>
    (writeBlock_writes out _).lives hq).bind fun _ => ?_
  exact (bfClockWrite_lives hq hrate).bind fun _ => Bus.Lives.get fun c _ =>
    (bfPitchWrite_writes c.pitch).lives hq

/-- So does the replay of the flags, which sets DIM for a while. -/
theorem bfStateApplyFlags_lives (hq : ∀ c d : Chip, d.quiet = c.quiet → P c → P d)
    (hd : ∀ c, P c → P (setDim true c)) : Bus.Lives P bfStateApplyFlags := by
  have hdim : Bus.Lives P (bfDimApply true) := fun w hl hw => by
    obtain ⟨w', hrun, hc, -, hl'⟩ := (writeDim_writes true).settle_live (setDim true)
      (fun old c => { c with dim := old.dim }) hl
    exact ⟨(), w', hrun, hq _ _ hc (hd _ hw), hl'⟩
  refine Bus.Lives.get fun c _ => ((bfLoopbackWriteMap_writes _ _).lives hq).bind fun _ => ?_
  refine ((writeLink_writes _ _).lives hq).bind fun _ => ?_
  refine (Bus.Lives.when _ fun _ => (bfWidthApply_writes _).lives hq).bind fun _ => ?_
  refine ((writeFx_writes _).lives hq).bind fun _ => ?_
  refine (Bus.Lives.when _ fun _ => writeMs_writes.lives hq).bind fun _ => ?_
  refine (Bus.Lives.when _ fun _ => hdim).bind fun _ => ?_
  refine (Bus.Lives.each _ fun mic _ => Bus.Lives.when _ fun _ =>
    (bfPhaseApply_writes mic true).lives hq).bind fun _ => ?_
  refine (Bus.Lives.each _ fun pb _ => Bus.Lives.when _ fun _ =>
    (bfSplitApply_writes pb true).lives hq).bind fun _ => ?_
  exact Bus.Lives.each _ fun mic _ => Bus.Lives.when _ fun _ => (bfTrimApply_writes mic _).lives hq

end Lives

/-- A resume uploads every strip. -/
theorem babyfaceResume_synced {w : World} (h : EqSynced w.chip w.wire) (hl : ∀ i, w.usb i = true)
    (jiffies : ℤ) :
    EqSynced (babyfaceResume jiffies w).2.chip (babyfaceResume jiffies w).2.wire := by
  obtain ⟨r, hr, hrate⟩ := h.rate
  -- The replay before the EQ leaves the strips and the rate alone, and cannot fail.
  let P : Chip → Prop := fun c => c.eq = w.chip.eq ∧ c.rate = w.chip.rate
  have hq : ∀ c d : Chip, d.quiet = c.quiet → P c → P d := fun c d hcd hc => by
    rw [Chip.quiet_eq hcd]
    exact hc
  have hsome : ∀ c, P c → (bfRateLookup c.rate).isSome = true := fun c hc => by
    rw [hc.2, ← hrate, bfRateLookup_of_mem hr]
    rfl
  have hiface : ∀ alt, Bus.Lives P (usbSetInterface alt) := fun alt => by
    have hw : Writes (usbSetInterface alt) fun _ => [(.iface, .alt alt)] := Bus.Sends.send _
    exact hw.lives hq
  obtain ⟨_, w₁, h₁, hp₁, hl₁⟩ := hiface w.chip.alt w hl ⟨rfl, rfl⟩
  obtain ⟨_, w₂, h₂, hp₂, hl₂⟩ := bfColdInit_lives hq hsome w₁ hl₁ hp₁
  obtain ⟨_, w₃, h₃, hp₃, hl₃⟩ := babyfaceRestoreState_lives hq hsome w₂ hl₂ hp₂
  obtain ⟨_, w₄, h₄, hp₄, hl₄⟩ := bfStateApplyFlags_lives hq (fun _ hc => hc) w₃ hl₃ hp₃
  have hlocked : bfResumeLocked w = bfEqReupload w₄ := by
    unfold bfResumeLocked
    rw [Bus.M.bind_of_ok (Bus.M.get_run w), Bus.M.bind_of_ok h₁, Bus.M.bind_of_ok h₂,
      Bus.M.bind_of_ok h₃, Bus.M.bind_of_ok h₄]
  have hs : EqSynced (bfEqReupload w₄).2.chip (bfEqReupload w₄).2.wire :=
    bfEqReupload_synced hl₄ (h.admits.congr hp₄.1) ⟨r, hr, hrate.trans hp₄.2.symm⟩
  obtain ⟨w', _, hrun, -⟩ := bfEqReupload_does w₄
  rw [hrun] at hs
  unfold babyfaceResume
  rw [Bus.M.bind_of_ok (hlocked.trans hrun)]
  exact hs.congr rfl rfl fun _ => rfl

/-! ## hw_params -/

/-- A session that stops leaves the EQ and the rate. -/
theorem sessionStopped_chip (k : Card) :
    (sessionStopped k).chip.eq = k.chip.eq ∧ (sessionStopped k).chip.rate = k.chip.rate := by
  unfold sessionStopped
  split <;> exact ⟨rfl, rfl⟩

/-- So does the choice of the URBs. -/
theorem chooseUrbs_chip (urb_split : ℤ) (d : Dir) (r : BfRate) (urb period : ℕ) (new : Bool) (k : Card) :
    (chooseUrbs urb_split d r urb period new k).chip.eq = k.chip.eq ∧
      (chooseUrbs urb_split d r urb period new k).chip.rate = k.chip.rate := by
  unfold chooseUrbs
  dsimp only [ledBy]
  split_ifs
  · exact sessionStopped_chip k
  · exact ⟨rfl, rfl⟩
  · exact ⟨rfl, rfl⟩

/-- The rate's part of hw_params, where at most its first transfer fails. -/
theorem hwParamsRate_synced (d : Dir) {r : BfRate} (hr : r ∈ bfRates) {w : PcmWorld}
    (h : EqSynced w.chip.chip w.wire) (hl : ∀ i, 0 < i → w.usb i = true) :
    EqSynced (hwParamsRate d r w).2.chip.chip (hwParamsRate d r w).2.wire := by
  unfold hwParamsRate
  rw [Bus.M.bind_of_ok (Bus.M.get_run w), Bus.M.ite_run, Bus.M.ite_run]
  split_ifs
  · exact h
  · exact h
  · rw [Bus.M.bind_of_ok (stopSession_run w)]
    have hstopped : EqSynced (sessionStopped w.chip).chip w.wire :=
      h.congr (sessionStopped_chip w.chip).1 (sessionStopped_chip w.chip).2 fun _ => rfl
    exact Bus.holds_bind (Q := fun w' : PcmWorld => EqSynced w'.chip.chip w'.wire)
      (bfRetune_synced hstopped hl hr) fun _ _ hw => hw

/-- Whatever hw_params does, the blocks on the device stay those of the parameters and the rate. -/
theorem babyfacePcmHwParams_synced (urb_split : ℤ) (d : Dir) (params : Runtime) {w : PcmWorld}
    (h : EqSynced w.chip.chip w.wire) (hl : ∀ i, 0 < i → w.usb i = true) :
    EqSynced (babyfacePcmHwParams urb_split d params w).2.chip.chip
      (babyfacePcmHwParams urb_split d params w).2.wire := by
  unfold babyfacePcmHwParams
  cases hr : bfRateLookup params.rate with
  | none => exact h
  | some r =>
    dsimp only
    rw [Bus.M.bind_of_ok (Bus.M.get_run w), Bus.M.ite_run, Bus.M.ite_run]
    -- A rate that another stream holds, or a period without a geometry, refuses the call.
    split_ifs
    · exact h
    · exact h
    -- The rate comes first, and with it the blocks.
    · refine Bus.holds_bind (Q := fun w' : PcmWorld => EqSynced w'.chip.chip w'.wire)
        (hwParamsRate_synced d (bfRateLookup_some hr).1 h hl) fun new w₁ hw₁ => ?_
      refine Bus.holds_bind (Q := fun w' : PcmWorld => EqSynced w'.chip.chip w'.wire) ?_ fun _ w₂ hw₂ => ?_
      -- The choice of the URBs touches neither the EQ nor the rate.
      · rw [hwParamsUrbs_run]
        split_ifs
        · exact hw₁
        · exact hw₁
        · obtain ⟨heq, hrate⟩ := chooseUrbs_chip urb_split d r
            (bfUrbFrames urb_split w.chip.chip r params.period_size) params.period_size new w₁.chip
          exact hw₁.congr heq hrate fun _ => rfl
      · have hset : (setUp d w₂.chip).chip.eq = w₂.chip.chip.eq ∧
            (setUp d w₂.chip).chip.rate = w₂.chip.chip.rate := by
          unfold setUp
          split <;> exact ⟨rfl, rfl⟩
        exact hw₂.congr hset.1 hset.2 fun _ => rfl

/-! ## Runs -/

/-- The card where no transfer to come fails. -/
def allThrough (w : PcmWorld) : PcmWorld := { w with usb := fun _ => true }

/-- Runs of a card from a probe on, in which no transfer fails but for switches of the interface: puts of
the strips' parameters, hw_params of either direction, resumes, and whatever else leaves the rate and the
strips alone and sends no block. -/
inductive EqRun (p : Params) : PcmWorld → Prop
  | probe {st0 : U8} {reprobe : Bool} {jiffies : ℤ} {w : World} (h : Probed st0 reprobe jiffies p w) :
      EqRun p ⟨{ chip := w.chip }, w.wire, w.notes, w.usb⟩
  | put (strip : Mic) (q : EqParam) (value : ℤ) (item : ℕ) {w : PcmWorld} (h : EqRun p w) :
      EqRun p (onChip (bfEqPut strip q value item) (allThrough w)).2
  /-- The first transfer of hw_params is the switch of the interface. -/
  | hwParams (d : Dir) (params : Runtime) (usb : ℕ → Bool) (hl : ∀ i, 0 < i → usb i = true) {w : PcmWorld}
      (h : EqRun p w) : EqRun p (babyfacePcmHwParams p.urb_split d params { w with usb := usb }).2
  | resume (jiffies : ℤ) {w : PcmWorld} (h : EqRun p w) :
      EqRun p (onChip (babyfaceResume jiffies) (allThrough w)).2
  | other {w w' : PcmWorld} (h : EqRun p w) (heq : w'.chip.chip.eq = w.chip.chip.eq)
      (hrate : w'.chip.chip.rate = w.chip.chip.rate)
      (hwire : ∃ vs, w'.wire = w.wire ++ vs ∧ ∀ b, .bulk b ∉ vs) : EqRun p w'

/-! ## A probe sends no block -/

/-- A register of an EQ channel. -/
def Reg.isBlock : Reg → Bool
  | .eq _ => true
  | _ => false

/-- A word is no block. -/
theorem word_no_block (req idx : ℕ) (v : U16) : ¬ (word req idx v).1.isBlock = true := Bool.false_ne_true

/-- The settings word writes no block. -/
theorem settingsRegs_no_block (c : Chip) : Misses Reg.isBlock (settingsRegs c) :=
  .cons (word_no_block _ _ _) .nil

/-- Nor do the masters. -/
theorem masterRegs_no_block (out : Out) (l8 r8 : U8) (l16 r16 : U16) :
    Misses Reg.isBlock (masterRegs out l8 r8 l16 r16) :=
  .cons (word_no_block _ _ _) <| .cons (word_no_block _ _ _) <| .cons (word_no_block _ _ _) <|
    .cons (word_no_block _ _ _) .nil

/-- Nor a pair of crosspoints. -/
theorem xpointRegs_no_block (out : Out) (src : Src) (l r : U16) :
    Misses Reg.isBlock (xpointRegs out src l r) :=
  .cons (word_no_block _ _ _) (.cons (word_no_block _ _ _) .nil)

/-- Nor the crosspoints across a pair. -/
theorem crossRegs_no_block (out : Out) : Misses Reg.isBlock (crossRegs out) :=
  .append (.map fun _ _ => word_no_block _ _ _) (.map fun _ _ => word_no_block _ _ _)

/-- Nor the init. -/
theorem initRegs_no_block (r : BfRate) (c : Chip) : Misses Reg.isBlock (initRegs r c) := by
  intro x hx
  simp only [initRegs, List.mem_append, List.mem_cons, List.not_mem_nil, or_false, List.mem_replicate] at hx
  rcases hx with ((rfl | rfl | rfl) | ⟨-, rfl⟩) | ⟨-, rfl⟩ <;> exact word_no_block _ _ _

/-- Nor the cold init. -/
theorem coldRegs_no_block (c : Chip) : Misses Reg.isBlock (coldRegs c) :=
  .append (.map fun _ _ => word_no_block _ _ _) <|
    .append (.append (.map fun _ _ => word_no_block _ _ _) (settingsRegs_no_block c)) <|
    .append (.cons (word_no_block _ _ _) .nil) (rateRegs_misses initRegs_no_block c)

/-- Nor the default mixer. -/
theorem defaultMixerRegs_no_block (c : Chip) : Misses Reg.isBlock (defaultMixerRegs c) :=
  .append (.flatMap fun _ _ => masterRegs_no_block _ _ _ _ _) <|
    .append (.flatMap fun _ _ => .append (.flatMap fun _ _ => xpointRegs_no_block _ _ _ _)
      (crossRegs_no_block _)) (settingsRegs_no_block _)

/-- Nor the width. -/
theorem widthRegs_no_block (v : ℤ) : Misses Reg.isBlock (widthRegs v) := by
  intro x hx
  simp only [widthRegs, List.mem_cons, List.not_mem_nil, or_false] at hx
  rcases hx with rfl | rfl | rfl | rfl | rfl | rfl | rfl | rfl <;> exact word_no_block _ _ _

/-- Nor the flags. -/
theorem flagRegs_no_block (c : Chip) : Misses Reg.isBlock (flagRegs c) := by
  have hlink : Misses Reg.isBlock (linkRegs c.linked c.an12 c) :=
    .cons (word_no_block _ _ _) (.cons (word_no_block _ _ _) .nil)
  have hfx : Misses Reg.isBlock (fxRegs c.fx_send) :=
    .cons (word_no_block _ _ _) (.cons (word_no_block _ _ _) .nil)
  have hms : Misses Reg.isBlock msRegs :=
    .cons (word_no_block _ _ _) <| .cons (word_no_block _ _ _) <| .cons (word_no_block _ _ _) <|
      .cons (word_no_block _ _ _) .nil
  have hdim : Misses Reg.isBlock (dimRegs true c) :=
    .append (masterRegs_no_block _ _ _ _ _) (.cons (word_no_block _ _ _) .nil)
  exact .append (.map fun _ _ => word_no_block _ _ _) <| .append hlink <|
    .append (.ite fun _ => widthRegs_no_block _) <| .append hfx <| .append (.ite fun _ => hms) <|
    .append (.ite fun _ => hdim) <|
    .append (.flatMap fun _ _ => .ite fun _ => .map fun _ _ => word_no_block _ _ _) <|
    .append (.flatMap fun _ _ => .ite fun _ => xpointRegs_no_block _ _ _ _) <|
    .flatMap fun _ _ => .ite fun _ => .append (xpointRegs_no_block _ _ _ _) (xpointRegs_no_block _ _ _ _)

/-- Nor the probe, before its EQ. -/
theorem probeRegs_no_block (st : Option U8) (p : Params) : Misses Reg.isBlock (probeRegs st p) :=
  .append (.cons Bool.false_ne_true .nil) <| .append (coldRegs_no_block _) <|
    .append (defaultMixerRegs_no_block _) (flagRegs_no_block _)

/-- After a probe no block was written, and every strip's EQ is off. -/
theorem Probed.synced {st0 : U8} {reprobe : Bool} {jiffies : ℤ} {p : Params} {w : World}
    (h : Probed st0 reprobe jiffies p w) : EqSynced w.chip w.wire := by
  obtain ⟨st, hq, hw⟩ := babyfaceProbe_run h
  refine ⟨h.eqAdmits, h.rated, fun strip => .inl fun side => ?_⟩
  rw [hw]
  exact (probeRegs_no_block st p).last_eq_none rfl

/-! ## The blocks on runs -/

/-- A routine of the rest of the driver that keeps the strips up to date. -/
theorem onChip_synced {α : Type} {m : Usb α} {w : PcmWorld}
    (h : EqSynced (m (w.zoom Card.chip)).2.chip (m (w.zoom Card.chip)).2.wire) :
    EqSynced (onChip m w).2.chip.chip (onChip m w).2.wire := h

/-- The strips are up to date at all times, but for those that were never uploaded. -/
theorem EqRun.synced {p : Params} {w : PcmWorld} (h : EqRun p w) : EqSynced w.chip.chip w.wire := by
  induction h with
  | probe h => exact h.synced
  | put strip q value item _ ih =>
    have hput := @bfEqPut_synced ((allThrough _).zoom Card.chip) ih (fun _ => rfl) strip q value item
    exact onChip_synced hput
  | hwParams d params usb hl _ ih => exact babyfacePcmHwParams_synced p.urb_split d params ih hl
  | resume jiffies _ ih =>
    have hresume := @babyfaceResume_synced ((allThrough _).zoom Card.chip) ih (fun _ => rfl) jiffies
    exact onChip_synced hresume
  | other _ heq hrate hwire ih => exact ih.extend heq hrate hwire

/-- A block was sent to one of the strip's channels. -/
def Uploaded (wire : List Xfer) (strip : Mic) : Prop :=
  ∃ side, ∃ x ∈ wire, x.write.1 = .eq (eqCh strip side)

/-- Whether the last blocks are those of a strip is a comparison. -/
instance (wire : List Xfer) (strip : Mic) : Decidable (Uploaded wire strip) :=
  inferInstanceAs (Decidable (∃ side, ∃ x ∈ wire, x.write.1 = .eq (eqCh strip side)))

/-- A strip that was uploaded is up to date. -/
theorem EqSynced.upToDate {c : Chip} {wire : List Xfer} (h : EqSynced c wire) {strip : Mic}
    (hs : Uploaded wire strip) : UpToDate c wire strip := by
  refine (h.strips strip).resolve_left fun hun => ?_
  obtain ⟨side, x, hx, hch⟩ := hs
  have hmem : Reg.eq (eqCh strip side) ∈ (wire.map Xfer.write).map Prod.fst :=
    List.mem_map.mpr ⟨x.write, List.mem_map_of_mem hx, hch⟩
  obtain ⟨v, hv⟩ := Registers.last_isSome hmem
  rw [hun side] at hv
  cases hv

/-- The words of a strip's band at the rate `fs`. -/
def EqChannel.bandWords (e : EqChannel) (fs : ℤ) (band : Fin 3) : Fin 5 → ℤ :=
  bfEqBandWords (e.band_type band) (e.band_freq band) (e.band_q band) (e.band_gain band) fs

/-- A band has a part in the scale that the bands share. -/
def EqChannel.Active (e : EqChannel) (band : Fin 3) : Prop := e.band_type band ≠ 0 ∧ e.band_gain band ≠ 0

/-- Whether a band is active is a test of its parameters. -/
instance (e : EqChannel) (band : Fin 3) : Decidable (e.Active band) :=
  inferInstanceAs (Decidable (e.band_type band ≠ 0 ∧ e.band_gain band ≠ 0))

/-- The payload of a strip that is on says what its parameters say at the rate `fs`. -/
structure EqChannel.Shows (e : EqChannel) (fs : ℤ) (pay : EqPayload) : Prop where
  bands (slot : Fin 3) (k : Fin 4) : pay.bands slot k = .ofInt 32 (e.bandWords fs slot k.castSucc)
  /-- The highest band that is active has the scale. -/
  shared (band : Fin 3) : e.Active band → (∀ b, band < b → ¬ e.Active b) →
    pay.shared = .ofInt 32 (e.bandWords fs band 4)
  flat : (∀ band, ¬ e.Active band) → pay.shared = .ofInt 32 BF_EQ_Q27
  lc : pay.lc = bfEqLcFreqRaw e.lc_hz e.slope_db
  slope : pay.slope = if e.lc_hz > 0 then bfEqLcSlopeByte e.slope_db else 0

/-- The scale that is left by the highest of the active bands. -/
theorem recompute_shared (e : EqChannel) (fs : ℤ) :
    (e.recompute fs).shared =
      if e.Active 2 then e.bandWords fs 2 4
      else if e.Active 1 then e.bandWords fs 1 4
      else if e.Active 0 then e.bandWords fs 0 4 else BF_EQ_Q27 := rfl

/-- Computed words show the parameters. -/
theorem EqChannel.shows_recompute {e : EqChannel} {fs : ℤ} (hon : e.on = true) :
    e.Shows fs (e.recompute fs).payload := by
  have hon' : (e.recompute fs).on = true := hon
  have hshared : (e.recompute fs).payload.shared = .ofInt 32 (e.recompute fs).shared := by
    simp only [EqChannel.payload, hon', if_true]
  refine ⟨fun slot k => ?_, fun band hact hlast => ?_, fun hnone => ?_, ?_, ?_⟩
  · simp only [EqChannel.payload, hon', if_true]
    rfl
  · rw [hshared, recompute_shared]
    match band, hact, hlast with
    | 0, hact, hlast => rw [if_neg (hlast 2 (by decide)), if_neg (hlast 1 (by decide)), if_pos hact]
    | 1, hact, hlast => rw [if_neg (hlast 2 (by decide)), if_pos hact]
    | 2, hact, _ => rw [if_pos hact]
  · rw [hshared, recompute_shared, if_neg (hnone 2), if_neg (hnone 1), if_neg (hnone 0)]
  · simp only [EqChannel.payload, hon', if_true]
    rfl
  · simp only [EqChannel.payload, hon', Bool.true_and, decide_eq_true_eq]
    rfl

/-- The parameters decide the blocks. -/
theorem EqChannel.recompute_congr {e e' : EqChannel} (h : ∀ q, e'.param q = e.param q) (fs : ℤ) :
    ∀ ch, (e'.recompute fs).block ch = (e.recompute fs).block ch := by
  have hon : e'.on = e.on := by
    have h0 := h .enable
    cases he : e.on <;> cases he' : e'.on <;> simp_all [EqChannel.param]
  have htype : e'.band_type = e.band_type := funext fun band => h (.type band)
  have hfreq : e'.band_freq = e.band_freq := funext fun band => h (.freq band)
  have hq : e'.band_q = e.band_q := funext fun band => h (.q band)
  have hgain : e'.band_gain = e.band_gain := funext fun band => h (.gain band)
  have hlc : e'.lc_hz = e.lc_hz := h .lcFreq
  have hslope : e'.slope_db = e.slope_db := h .lcSlope
  intro ch
  unfold EqChannel.recompute EqChannel.block
  rw [hon, htype, hfreq, hq, hgain, hlc, hslope]

/-- On every run without failed transfers, a strip that was uploaded at least once has the same payload in
the last blocks of its two channels: the identity when it is off, whatever its parameters, and when it is on
what its parameters say at the current rate. A slope byte never comes with the word for no low cut. Two runs
that end in the same parameters and rate end in the same blocks. -/
theorem eq_upload_settings {p : Params} {w : PcmWorld} (h : EqRun p w) {strip : Mic}
    (hs : Uploaded w.wire strip) :
    ∃ pay : EqPayload,
      (∀ side, ∃ b, last (w.wire.map Xfer.write) (.eq (eqCh strip side)) = some (.block b) ∧
        decodeBlock b = some (eqCh strip side, pay)) ∧
      ((w.chip.chip.eq strip).on = false → pay = EqPayload.identity) ∧
      ((w.chip.chip.eq strip).on = true → (w.chip.chip.eq strip).Shows w.chip.chip.rate pay) ∧
      (pay.slope ≠ 0 → pay.lc ≠ BF_EQ_LC_OFF) ∧
      ∀ {p' : Params} {w' : PcmWorld}, EqRun p' w' → Uploaded w'.wire strip →
        (∀ q, (w'.chip.chip.eq strip).param q = (w.chip.chip.eq strip).param q) →
        w'.chip.chip.rate = w.chip.chip.rate →
        ∀ side, last (w'.wire.map Xfer.write) (.eq (eqCh strip side)) =
          last (w.wire.map Xfer.write) (.eq (eqCh strip side)) := by
  have hup := h.synced.upToDate hs
  -- The rate of a run is one of the table, so that the EQ's is the same.
  have hfs : ∀ {p' : Params} {w' : PcmWorld}, EqRun p' w' → w'.chip.chip.eqFs = w'.chip.chip.rate := by
    intro p' w' h'
    obtain ⟨r, hr, hrate⟩ := h'.synced.rate
    have hpos := rate_ge hr
    unfold Chip.eqFs
    rw [if_pos (by omega)]
  have hwords := hup.words
  rw [hfs h] at hwords
  refine ⟨(w.chip.chip.eq strip).payload, fun side => ?_, fun hoff => ?_, fun hon => ?_, fun hslope => ?_, ?_⟩
  -- Both channels hold the payload of the words.
  · exact ⟨_, hup.sent side, EqChannel.decodeBlock_block _ _⟩
  · simp only [EqChannel.payload, EqPayload.identity, hoff]
    rfl
  · rw [hwords]
    exact EqChannel.shows_recompute hon
  · -- A slope is only sent with a low cut.
    rw [hwords] at hslope ⊢
    simp only [EqChannel.payload] at hslope ⊢
    split_ifs at hslope with hcut
    · rw [Bool.and_eq_true, decide_eq_true_eq] at hcut
      rw [if_pos hcut.1]
      exact bfEqLcFreqRaw_ne_off hcut.2 _
    · exact absurd rfl hslope
  -- The words are a function of the parameters and the rate, whatever the history.
  · intro p' w' h' hs' hparam hrate side
    have hup' := h'.synced.upToDate hs'
    have hwords' := hup'.words
    rw [hfs h', hrate] at hwords'
    rw [hup.sent side, hup'.sent side, hwords, hwords', EqChannel.recompute_congr hparam]

/-- An upload among the later transfers is an upload. -/
theorem Uploaded.of_drop {wire : List Xfer} {n : ℕ} {strip : Mic} (h : Uploaded (wire.drop n) strip) :
    Uploaded wire strip := by
  obtain ⟨side, x, hx, he⟩ := h
  exact ⟨side, x, List.mem_of_mem_drop hx, he⟩

/-- A routine that only sends takes no upload back. -/
theorem Uploaded.routine {α : Type} {m : Usb α} {R : Chip → Chip → Prop} (hm : Keeps R m) {w : PcmWorld}
    {strip : Mic} (h : Uploaded w.wire strip) : Uploaded (onChip m (allThrough w)).2.wire strip := by
  obtain ⟨vs, hwire, -⟩ := hm.wire ((allThrough w).zoom Card.chip)
  have hgrown : (onChip m (allThrough w)).2.wire.map Xfer.write = w.wire.map Xfer.write ++ vs := hwire
  obtain ⟨side, x, hx, he⟩ := h
  have hmem : x.write ∈ (onChip m (allThrough w)).2.wire.map Xfer.write := by
    rw [hgrown]
    exact List.mem_append_left _ (List.mem_map_of_mem hx)
  obtain ⟨y, hy, hxy⟩ := List.mem_map.mp hmem
  exact ⟨side, y, hy, by rw [hxy, he]⟩

/-- A card after puts of parameters of a strip, each with its value or the item of its list. -/
def putStrip (strip : Mic) (l : List (EqParam × ℤ)) (w : PcmWorld) : PcmWorld :=
  l.foldl (fun w q => (onChip (bfEqPut strip q.1 q.2 q.2.toNat) (allThrough w)).2) w

/-- Puts of a strip's parameters go on with a run. -/
theorem EqRun.putStrip {p : Params} (strip : Mic) (l : List (EqParam × ℤ)) {w : PcmWorld} (h : EqRun p w) :
    EqRun p (putStrip strip l w) := by
  induction l generalizing w with
  | nil => exact h
  | cons q l ih => exact ih (.put strip q.1 q.2 q.2.toNat h)

/-- A new card. -/
def newPcm : PcmWorld := ⟨{ chip := freshCard.chip }, freshCard.wire, freshCard.notes, freshCard.usb⟩

/-- A bell, a high shelf above it, and a low cut. -/
def stripParams : List (EqParam × ℤ) :=
  [(.type 0, 1), (.freq 0, 1000), (.gain 0, 60), (.type 2, 3), (.freq 2, 8000), (.gain 2, -100), (.lcFreq, 80),
    (.lcSlope, 3)]

/-- The first strip is switched on with these, and the second one on and off. -/
def switchedEq : PcmWorld :=
  putStrip 1 [(.gain 1, 40), (.enable, 1), (.enable, 0)] (putStrip 0 (stripParams ++ [(.enable, 1)]) newPcm)

/-- Then the rate is doubled. -/
def doubledEq : PcmWorld :=
  (babyfacePcmHwParams ({} : Params).urb_split .playback ⟨96000, 2, 1024, 4096⟩
    { switchedEq with usb := fun _ => true }).2

/-- And the card is resumed. -/
def retunedEq : PcmWorld := (onChip (babyfaceResume 0) (allThrough doubledEq)).2

/-- A card whose rate is doubled first. -/
def tunedPcm : PcmWorld :=
  (babyfacePcmHwParams ({} : Params).urb_split .capture ⟨96000, 2, 512, 4096⟩ { newPcm with usb := fun _ => true }).2

/-- The parameters of its first strip are put while that is on. -/
def tunedEq : PcmWorld := putStrip 0 ((.enable, 1) :: stripParams) tunedPcm

/-- A card that was just probed. -/
theorem newPcm_run : EqRun {} newPcm := .probe freshCard_probed

/-- The run to `retunedEq`. -/
theorem retunedEq_run : EqRun {} retunedEq := by
  have hput : EqRun {} switchedEq := (newPcm_run.putStrip 0 _).putStrip 1 _
  have hdouble : EqRun {} doubledEq := hput.hwParams .playback ⟨96000, 2, 1024, 4096⟩ _ fun _ _ => rfl
  exact hdouble.resume 0

/-- The run to `tunedEq`. -/
theorem tunedEq_run : EqRun {} tunedEq := by
  have hdouble : EqRun {} tunedPcm := newPcm_run.hwParams .capture ⟨96000, 2, 512, 4096⟩ _ fun _ _ => rfl
  exact hdouble.putStrip 0 _

/-- Both runs end in the same parameters. -/
theorem tunedEq_param (q : EqParam) : (tunedEq.chip.chip.eq 0).param q = (retunedEq.chip.chip.eq 0).param q := by
  have hbands : ∀ band, (tunedEq.chip.chip.eq 0).param (.type band) = (retunedEq.chip.chip.eq 0).param (.type band) ∧
      (tunedEq.chip.chip.eq 0).param (.freq band) = (retunedEq.chip.chip.eq 0).param (.freq band) ∧
      (tunedEq.chip.chip.eq 0).param (.q band) = (retunedEq.chip.chip.eq 0).param (.q band) ∧
      (tunedEq.chip.chip.eq 0).param (.gain band) = (retunedEq.chip.chip.eq 0).param (.gain band) := by
    decide +kernel
  cases q with
  | enable => decide +kernel
  | type band => exact (hbands band).1
  | freq band => exact (hbands band).2.1
  | q band => exact (hbands band).2.2.1
  | gain band => exact (hbands band).2.2.2
  | lcFreq => decide +kernel
  | lcSlope => decide +kernel

/-- What the first run leaves. -/
theorem retunedEq_state : retunedEq.chip.chip.rate = 96000 ∧ (retunedEq.chip.chip.eq 0).on = true ∧
    (retunedEq.chip.chip.eq 1).on = false ∧ (retunedEq.chip.chip.eq 0).Active 2 ∧
    (if (retunedEq.chip.chip.eq 0).lc_hz > 0 then bfEqLcSlopeByte (retunedEq.chip.chip.eq 0).slope_db else 0)
      = 0x0F := by
  decide +kernel

/-- Both strips were uploaded in it, before the resume. -/
theorem retunedEq_uploaded : Uploaded retunedEq.wire 0 ∧ Uploaded retunedEq.wire 1 := by
  have hend : ∀ strip : Mic, strip.val < 2 → Uploaded (doubledEq.wire.drop 447) strip := by decide +kernel
  have hresume : Keeps (fun _ _ => True) (babyfaceResume 0) :=
    babyfaceResume_keeps ⟨fun _ => trivial, fun _ _ => trivial⟩ (fun _ _ _ _ _ _ _ => trivial) (fun _ => trivial)
      (fun _ => trivial) (fun _ _ => trivial) fun _ => trivial
  exact ⟨(hend 0 (by decide)).of_drop.routine hresume, (hend 1 (by decide)).of_drop.routine hresume⟩

/-- What the second run leaves. -/
theorem tunedEq_state : tunedEq.chip.chip.rate = 96000 ∧ Uploaded tunedEq.wire 0 := by
  have hend : Uploaded (tunedEq.wire.drop 447) 0 := by decide +kernel
  exact ⟨by decide +kernel, hend.of_drop⟩

/-- The strip that is on has the words of its parameters at the new rate on both channels, the scale of the high
shelf and a slope; the one that is off is the identity; and the other history ends in the same blocks. -/
theorem eq_upload_settings_retuned :
    (∃ pay : EqPayload,
      (∀ side, ∃ b, last (retunedEq.wire.map Xfer.write) (.eq (eqCh 0 side)) = some (.block b) ∧
        decodeBlock b = some (eqCh 0 side, pay)) ∧
      (retunedEq.chip.chip.eq 0).Shows 96000 pay ∧ pay.slope = 0x0F ∧ pay.lc ≠ BF_EQ_LC_OFF ∧
      pay.shared = .ofInt 32 ((retunedEq.chip.chip.eq 0).bandWords 96000 2 4)) ∧
      (∀ side, ∃ b, last (retunedEq.wire.map Xfer.write) (.eq (eqCh 1 side)) = some (.block b) ∧
        decodeBlock b = some (eqCh 1 side, EqPayload.identity)) ∧
      ∀ side, last (tunedEq.wire.map Xfer.write) (.eq (eqCh 0 side)) =
        last (retunedEq.wire.map Xfer.write) (.eq (eqCh 0 side)) := by
  obtain ⟨hrate, hon, hoff, hshelf, hcut⟩ := retunedEq_state
  obtain ⟨hfirst, hsecond⟩ := retunedEq_uploaded
  obtain ⟨htuned, hother⟩ := tunedEq_state
  obtain ⟨pay, hpay, -, hshows, hslope, hblocks⟩ := eq_upload_settings retunedEq_run hfirst
  obtain ⟨pay', hpay', hidentity, -⟩ := eq_upload_settings retunedEq_run hsecond
  have h := hshows hon
  rw [hrate] at h
  have hbyte : pay.slope = 0x0F := h.slope.trans hcut
  rw [hidentity hoff] at hpay'
  have htop : ∀ b : Fin 3, ¬ 2 < b := by decide
  refine ⟨⟨pay, hpay, h, hbyte, hslope ?_, h.shared 2 hshelf fun b hb => absurd hb (htop b)⟩, hpay', ?_⟩
  · rw [hbyte]
    decide
  · exact hblocks tunedEq_run hother tunedEq_param (htuned.trans hrate.symm)

end BabyfacePro
