import BabyfacePro.Eq.Strip
import BabyfacePro.Rates

/-!
# Cold init, default mixer, and replay

The routines that bring a device of unknown state to the state of the cache: the cold init, the
default mixer of a probe, and the replay after a resume. `Restores` states what a routine that
returned without an error has written, and what it made of the cache.
-/

namespace BabyfacePro

open Bus.M (get modify throw each when)

/-- When `m` returns without an error from a state in `P`, it has written `ws` and turned the state
into `f`. -/
abbrev Restores {α : Type} (P : Chip → Prop) (m : Usb α) (f : Chip → Chip)
    (ws : Chip → List (Reg × Datum)) : Prop :=
  Bus.Acts Chip.quiet Xfer.write P m f ws

/-- A routine that needs the table's entry of the sample rate, `-EINVAL` without one. -/
def withRate (f : BfRate → Usb Unit) : Usb Unit := do
  let chip ← get
  match bfRateLookup chip.rate with
  | none => throw .einval
  | some r => f r

/-- The writes that a supported rate makes. -/
def rateRegs (ws : BfRate → Chip → List (Reg × Datum)) (c : Chip) : List (Reg × Datum) :=
  match bfRateLookup c.rate with
  | none => []
  | some r => ws r c

/-- What is written for the cached rate. -/
theorem withRate_restores {P : Chip → Prop} {f : BfRate → Usb Unit}
    {ws : BfRate → Chip → List (Reg × Datum)} (h : ∀ r, Writes (f r) (ws r)) :
    Restores P (withRate f) id (rateRegs ws) := by
  refine Bus.Acts.get fun c => ?_
  cases hr : bfRateLookup c.rate with
  | none => exact ⟨id, rateRegs ws, Bus.Acts.throw _, rfl, rfl⟩
  | some r =>
    refine ⟨id, ws r, (h r).acts, rfl, ?_⟩
    show _ = rateRegs ws c.quiet
    rw [rateRegs, show bfRateLookup c.quiet.rate = some r from hr]

/-! ## Clock -/

/-- The rate family's register and the settings word. -/
def clockRegs (r : BfRate) (c : Chip) : List (Reg × Datum) :=
  word BF_REQ_KEEPALIVE BF_REG_RATE_FAMILY (.ofNat 16 (bfRateFamily r <<< 4)) :: settingsRegs c

/-- `bf_clock_write`. -/
def bfClockWrite : Usb Unit :=
  withRate fun r => do
    bfVendorWrite BF_REQ_KEEPALIVE (.ofNat 16 (bfRateFamily r <<< 4)) BF_REG_RATE_FAMILY
    bfSettingsWrite

/-- The clock's write. -/
theorem bfClockWrite_restores (P : Chip → Prop) : Restores P bfClockWrite id (rateRegs clockRegs) :=
  withRate_restores fun _ => (bfVendorWrite_writes _ _ (by decide)).seq bfSettingsWrite_writes

/-! ## Cold init -/

/-- The registers that the cold init clears. -/
def clearList : List ℕ := (List.range 0x3e).filter fun i => i ≠ 0x1e ∧ i ≠ 0x1f

/-- The word of the cold init that carries the rate family and the settings. -/
def initWord (r : BfRate) (c : Chip) : U16 := .ofNat 16 (bfRateFamily r <<< 4) ||| settingsWord c

/-- The writes of the cold init that follow the clear, the varispeed quad and the status request. -/
def initRegs (r : BfRate) (c : Chip) : List (Reg × Datum) :=
  [word BF_REQ_KEEPALIVE BF_REG_KEEPALIVE_INIT (initWord r c), word BF_REQ_PREAMP 0x0000 0x000c,
    word BF_REQ_PREAMP_COMMIT 0x0000 0x0000]
    ++ List.replicate 2 (word BF_REQ_KEEPALIVE 0x3000 0x0000)
    ++ List.replicate 3 (word BF_REQ_KEEPALIVE 0x0800 0x0800)

/-- The writes of the cold init. -/
def coldRegs (c : Chip) : List (Reg × Datum) :=
  clearList.map (fun i => word BF_REQ_REG_CLEAR i 0) ++ (pitchRegs c.pitch c
    ++ ([word BF_REQ_STATUS_2 0x0000 0x0000] ++ rateRegs initRegs c))

/-- The end of `bf_cold_init`. -/
def writeInit (r : BfRate) : Usb Unit := do
  let chip ← get
  bfVendorWrite BF_REQ_KEEPALIVE (initWord r chip) BF_REG_KEEPALIVE_INIT
  bfVendorWrite BF_REQ_PREAMP 0x000c 0x0000
  bfVendorWrite BF_REQ_PREAMP_COMMIT 0x0000 0x0000
  each (List.range 2) fun _ => bfVendorWrite BF_REQ_KEEPALIVE 0x0000 0x3000
  each (List.range 3) fun _ => bfVendorWrite BF_REQ_KEEPALIVE 0x0800 0x0800

/-- `bf_cold_init`. -/
def bfColdInit : Usb Unit := do
  each clearList fun i => bfVendorWrite BF_REQ_REG_CLEAR 0x0000 i
  let chip ← get
  bfPitchWrite chip.pitch
  bfVendorWrite BF_REQ_STATUS_2 0x0000 0x0000
  withRate writeInit

/-- The clears of the cold init, in their order. -/
theorem clear_writes : Writes (each clearList fun i => bfVendorWrite BF_REQ_REG_CLEAR 0x0000 i)
    fun _ => clearList.map fun i => word BF_REQ_REG_CLEAR i 0 := by
  refine Bus.Sends.congr (Bus.Sends.each _ fun i _ =>
    bfVendorWrite_writes _ i (by decide)) fun _ => ?_
  rw [List.map_eq_flatMap]

/-- The init of a rate. -/
theorem writeInit_writes (r : BfRate) : Writes (writeInit r) (initRegs r) := by
  have h := fun (req : ℕ) (v : U16) (idx : ℕ) (hr : req ≠ BF_REQ_CROSSPOINT) =>
    bfVendorWrite_writes v idx hr
  exact Writes.get fun c => ⟨_, (h _ _ _ (by decide)).seq <| (h _ _ _ (by decide)).seq <|
    (h _ _ _ (by decide)).seq <|
    (Bus.Sends.each (List.range 2) fun _ _ => h _ _ _ (by decide)).seq
      (Bus.Sends.each (List.range 3) fun _ _ => h _ _ _ (by decide)), rfl⟩

/-- The cold init changes nothing of the cache. -/
theorem bfColdInit_restores (P : Chip → Prop) : Restores P bfColdInit id coldRegs := by
  have hs : Writes (bfVendorWrite BF_REQ_STATUS_2 0x0000 0x0000) fun _ =>
    [word BF_REQ_STATUS_2 0x0000 0x0000] := bfVendorWrite_writes _ _ (by decide)
  exact clear_writes.acts.andThen <| Bus.Acts.get fun c =>
    ⟨_, _, (bfPitchWrite_writes c.pitch).acts.andThen <| hs.acts.andThen <|
      withRate_restores writeInit_writes, rfl, rfl⟩

/-! ## The default mixer -/

/-- The masters of the factory default: -20 dB on the analog outputs, 0 dB on the digital ones. -/
def defaultStep (out : Out) : U16 :=
  .ofInt 16 (if out.val < 2 then BF_MASTER_STEP_MINUS20 else BF_MASTER_STEP_0DB)

/-- The registers of the factory default's masters. -/
def defaultMasterRegs (out : Out) : List (Reg × Datum) :=
  let gain8 := if out.val < 2 then BF_MASTER_MINUS20_8 else BF_MASTER_UNMUTE
  let gain16 := if out.val < 2 then BF_MASTER_MINUS20_16 else BF_MASTER_0DB
  masterRegs out gain8 gain8 gain16 gain16

/-- The masters' part of the default in the cache. -/
def cacheDefaultMaster (out : Out) (c : Chip) : Chip :=
  { c with
    master := Function.update c.master out ![defaultStep out, defaultStep out]
    muted := Function.update c.muted out false }

/-- The loop body of `babyface_write_default_mixer` over the masters. -/
def writeDefaultMaster (out : Out) : Usb Unit := do
  let gain8 := if out.val < 2 then BF_MASTER_MINUS20_8 else BF_MASTER_UNMUTE
  let gain16 := if out.val < 2 then BF_MASTER_MINUS20_16 else BF_MASTER_0DB
  writeMasters out gain8 gain8 gain16 gain16
  modify (cacheDefaultMaster out)

/-- The crosspoint of a source in the factory default: only the playback pairs are routed. -/
def defaultLevel (src : Src) : U16 := if src.val < BF_SRC_PB1 then 0 else BF_FADER_0DB

/-- The crosspoints of one output, and its cross registers. -/
def blockRegs (out : Out) (xpoint : Src → Side → U16) : List (Reg × Datum) :=
  (List.finRange 14).flatMap (fun src => xpointRegs out src (xpoint src 0) (xpoint src 1))
    ++ crossRegs out

/-- The loop body over an output's crosspoints, in the default mixer and in the replay. -/
def writeBlock (out : Out) (xpoint : Src → Side → U16) : Usb Unit := do
  each (List.finRange 14) fun src => bfXpointWrite out src (xpoint src 0) (xpoint src 1)
  bfCrosspointClearCross out

/-- The crosspoints of an output, source after source. -/
theorem writeBlock_writes (out : Out) (xpoint : Src → Side → U16) :
    Writes (writeBlock out xpoint) fun _ => blockRegs out xpoint :=
  (Bus.Sends.each _ fun src _ => bfXpointWrite_writes out src _ _).seq
    (bfCrosspointClearCross_writes out)

/-- The crosspoints' part of the default in the cache. -/
def cacheDefaultXpoints (c : Chip) : Chip := { c with xpoint := fun _ src _ => defaultLevel src }

/-- `babyface_write_default_mixer`. -/
def babyfaceWriteDefaultMixer : Usb Unit := do
  each (List.finRange 6) writeDefaultMaster
  each (List.finRange 6) fun out => writeBlock out fun src _ => defaultLevel src
  modify cacheDefaultXpoints
  bfSettingsWrite

/-- The default mixer in the cache. -/
def cacheDefaultMixer (c : Chip) : Chip :=
  cacheDefaultXpoints ((List.finRange 6).foldl (fun c out => cacheDefaultMaster out c) c)

/-- The writes of the default mixer. -/
def defaultMixerRegs (c : Chip) : List (Reg × Datum) :=
  (List.finRange 6).flatMap defaultMasterRegs
    ++ ((List.finRange 6).flatMap (fun out => blockRegs out fun src _ => defaultLevel src)
    ++ settingsRegs (cacheDefaultMixer c))

/-- A default master is cached and written. -/
theorem writeDefaultMaster_restores (P : Chip → Prop) (out : Out) :
    Restores P (writeDefaultMaster out) (cacheDefaultMaster out) fun _ => defaultMasterRegs out := by
  have h : Restores P (writeDefaultMaster out) (cacheDefaultMaster out) _ :=
    (writeMasters_writes out _ _ _ _).acts.andThen (Bus.Acts.modify fun _ => rfl)
  exact h.congr (fun _ _ => rfl) fun _ _ => List.append_nil _

/-- The default mixer keeps a property that the changes of the cache keep. -/
theorem babyfaceWriteDefaultMixer_restores {P : Chip → Prop}
    (hP : ∀ out c, P c → P (cacheDefaultMaster out c)) (hP' : ∀ c, P c → P (cacheDefaultXpoints c)) :
    Restores P babyfaceWriteDefaultMixer cacheDefaultMixer defaultMixerRegs := by
  have hx : Writes (each (List.finRange 6) fun out => writeBlock out fun src _ => defaultLevel src)
      fun _ => (List.finRange 6).flatMap fun out => blockRegs out fun src _ => defaultLevel src :=
    Bus.Sends.each _ fun out _ => writeBlock_writes out _
  have hw : Restores P bfSettingsWrite id settingsRegs := bfSettingsWrite_writes.acts
  have hc : Restores P (modify cacheDefaultXpoints) cacheDefaultXpoints fun _ => [] :=
    Bus.Acts.modify fun _ => rfl
  have hm : Restores P (each (List.finRange 6) writeDefaultMaster)
      (fun c => (List.finRange 6).foldl (fun c out => cacheDefaultMaster out c) c)
      fun _ => (List.finRange 6).flatMap defaultMasterRegs :=
    Bus.Acts.each _ hP fun out _ => writeDefaultMaster_restores P out
  have hk : ∀ c, P c → P ((List.finRange 6).foldl (fun c out => cacheDefaultMaster out c) c) :=
    fun c hp => List.foldlRecOn (List.finRange 6) _ hp fun c hc out _ => hP out c hc
  have hrest := hx.acts.andThen (hc.bind hP' fun _ => hw)
  exact hm.bind hk fun _ => hrest

/-! ## The replay -/

/-- The writes of `babyface_restore_state`. -/
def restoreRegs (c : Chip) : List (Reg × Datum) :=
  preampRegs c ++ ((List.finRange 4).flatMap (fun mic => gainRegs mic (c.gain mic).toNat)
    ++ ((List.finRange 6).flatMap (fun out =>
        outRegs out (c.muted out) false (c.master out 0) (c.master out 1))
      ++ ((List.finRange 6).flatMap (fun out => blockRegs out (c.xpoint out))
        ++ (rateRegs clockRegs c ++ pitchRegs c.pitch c))))

/-- `babyface_restore_state`. -/
def babyfaceRestoreState : Usb Unit := do
  bfPreampStateWrite
  each (List.finRange 4) fun mic => do
    let chip ← get
    bfVendorWrite BF_REQ_GAIN ((bfGainRaw mic (chip.gain mic).toNat).setWidth 16) (BF_REG_GAIN + mic)
  bfApplyMasters
  each (List.finRange 6) fun out => do
    let chip ← get
    writeBlock out (chip.xpoint out)
  bfClockWrite
  let chip ← get
  bfPitchWrite chip.pitch

/-- The replay writes what is cached. -/
theorem babyfaceRestoreState_restores (P : Chip → Prop) :
    Restores P babyfaceRestoreState id restoreRegs := by
  -- The loops look at the cache in each turn, which their own writes do not change.
  have hg : Writes (each (List.finRange 4) fun mic => do
      let chip ← get
      bfVendorWrite BF_REQ_GAIN ((bfGainRaw mic (chip.gain mic).toNat).setWidth 16)
        (BF_REG_GAIN + mic))
      fun c => (List.finRange 4).flatMap fun mic => gainRegs mic (c.gain mic).toNat :=
    Bus.Sends.each _ fun mic _ =>
      Writes.get fun _ => ⟨_, bfVendorWrite_writes _ _ (by decide), rfl⟩
  have hx : Writes (each (List.finRange 6) fun out => do
      let chip ← get
      writeBlock out (chip.xpoint out))
      fun c => (List.finRange 6).flatMap fun out => blockRegs out (c.xpoint out) :=
    Bus.Sends.each _ fun out _ => Writes.get fun _ => ⟨_, writeBlock_writes out _, rfl⟩
  have hp : Restores P (do
      let chip ← get
      bfPitchWrite chip.pitch) id fun c => pitchRegs c.pitch c :=
    Bus.Acts.get fun c => ⟨id, _, (bfPitchWrite_writes c.pitch).acts, rfl, rfl⟩
  exact bfPreampStateWrite_writes.acts.andThen <| hg.acts.andThen <|
    bfApplyMasters_writes.acts.andThen <| hx.acts.andThen <|
    (bfClockWrite_restores P).andThen hp

/-! ## The overlays of the replay -/

/-- The output whose loopback is on, the first if several were, and `-1` if none is. -/
def loopbackOn (c : Chip) : ℤ :=
  match (List.finRange 6).find? c.loopback with
  | some out => out
  | none => -1

/-- The writes of `bf_state_apply_flags`. -/
def flagRegs (c : Chip) : List (Reg × Datum) :=
  loopbackRegs (loopbackOn c) (0 ≤ loopbackOn c) ++ (linkRegs c.linked c.an12 c
    ++ ((if c.width ≠ 0 then widthRegs c.width else []) ++ (fxRegs c.fx_send
    ++ ((if c.ms_proc then msRegs else []) ++ ((if c.dim then dimRegs true c else [])
    ++ ((List.finRange 4).flatMap (fun mic => if c.phase mic then phaseRegs mic true c else [])
    ++ ((List.finRange 6).flatMap (fun pb => if c.split pb then splitRegs pb true c else [])
    ++ [0, 2].flatMap fun mic =>
      if c.trim mic ≠ 0 then trimRegs mic (c.trim mic * 2) else [])))))))

/-- `bf_state_apply_flags`. -/
def bfStateApplyFlags : Usb Unit := do
  let chip ← get
  bfLoopbackWriteMap (loopbackOn chip) (0 ≤ loopbackOn chip)
  writeLink chip.linked chip.an12
  when (chip.width ≠ 0) (bfWidthApply chip.width)
  writeFx chip.fx_send
  when chip.ms_proc writeMs
  when chip.dim (bfDimApply true)
  each (List.finRange 4) fun mic => when (chip.phase mic) (bfPhaseApply mic true)
  each (List.finRange 6) fun pb => when (chip.split pb) (bfSplitApply pb true)
  each [0, 2] fun mic => when (chip.trim mic ≠ 0) (bfTrimApply mic (chip.trim mic * 2))

/-- While DIM is engaged, the restore point is the cached Phones master. -/
def Chip.DimSaved (c : Chip) : Prop := c.dim = true → c.dim_saved = c.master 1

/-- Engaging DIM where it is engaged changes nothing. -/
theorem setDim_true {c : Chip} (hd : c.dim = true) (h : c.DimSaved) : setDim true c = c := by
  have hs := h hd
  unfold setDim
  rw [if_pos rfl, ← hs, ← hd]

/-- `bf_dim_apply` where DIM is engaged already. -/
theorem bfDimApply_restores {P : Chip → Prop} (hd : ∀ c, P c → c.dim = true)
    (hs : ∀ c, P c → c.DimSaved) : Restores P (bfDimApply true) id (dimRegs true) := by
  intro w a w' hp hm
  simp only [bfDimApply, Bus.M.settle, Bus.M.rollback, Bus.M.bind_run, Bus.M.get_run,
    Bus.M.modify_run] at hm
  split at hm
  · rename_i w₁ h₁
    cases hm
    obtain ⟨hc, hw, hn⟩ := (writeDim_writes true).run_ok h₁
    have hq : (setDim true w.chip).quiet = w.chip.quiet := setDim_true (hd _ hp) (hs _ hp)
    rw [hq] at hc hw
    exact ⟨hc, hw, hn⟩
  · cases hm

/-- The replay of the flags ends with the cache it began with, if DIM has saved its steps. -/
theorem bfStateApplyFlags_restores : Restores Chip.DimSaved bfStateApplyFlags id flagRegs := by
  refine Bus.Acts.get fun c => ⟨id, ?_⟩
  have hl := bfLoopbackWriteMap_writes (loopbackOn c) (0 ≤ loopbackOn c)
  have hd : Restores (fun s => s.DimSaved ∧ s = c.quiet) (when c.dim (bfDimApply true)) id
      fun s => if c.dim then dimRegs true s else [] := by
    -- DIM engages with the steps that the cache has saved, and caches them as they were.
    cases hc : c.dim with
    | false => exact Bus.Sends.pure.acts (e := Errno.usb)
    | true => exact bfDimApply_restores (fun s hs => by rw [hs.2]; exact hc) fun s hs => hs.1
  have hp : Writes (each (List.finRange 4) fun mic => when (c.phase mic) (bfPhaseApply mic true))
      fun s => (List.finRange 4).flatMap fun mic => if c.phase mic then phaseRegs mic true s else [] :=
    Bus.Sends.each _ fun mic _ => (bfPhaseApply_writes mic true).when _
  have hs : Writes (each (List.finRange 6) fun pb => when (c.split pb) (bfSplitApply pb true))
      fun s => (List.finRange 6).flatMap fun pb => if c.split pb then splitRegs pb true s else [] :=
    Bus.Sends.each _ fun pb _ => (bfSplitApply_writes pb true).when _
  have ht : Writes (each [0, 2] fun mic =>
      when (c.trim mic ≠ 0) (bfTrimApply mic (c.trim mic * 2)))
      fun _ => [0, 2].flatMap fun mic =>
        if decide (c.trim mic ≠ 0) then trimRegs mic (c.trim mic * 2) else [] :=
    Bus.Sends.each _ fun mic _ => (bfTrimApply_writes mic _).when _
  -- The blocks in the order of the source.
  have h := hl.acts.andThen <| (writeLink_writes c.linked c.an12).acts.andThen <|
    ((bfWidthApply_writes c.width).when (c.width ≠ 0)).acts.andThen <|
    (writeFx_writes c.fx_send).acts.andThen <| (writeMs_writes.when c.ms_proc).acts.andThen <|
    hd.andThen <| hp.acts.andThen <| hs.acts.andThen ht.acts
  refine ⟨_, h, rfl, ?_⟩
  simp only [decide_eq_true_eq]
  rfl

/-! ## Resume -/

/-- The writes of `bf_resume_locked` before the EQ. -/
def resumeRegs (c : Chip) : List (Reg × Datum) :=
  [(.iface, .alt c.alt)] ++ (coldRegs c ++ (restoreRegs c ++ flagRegs c))

/-- `usb_set_interface` on the audio interface. -/
def usbSetInterface (alt : ℕ) : Usb Unit := Bus.M.send .usb (.setInterface alt)

/-- `bf_resume_locked`. -/
def bfResumeLocked : Usb Unit := do
  let chip ← get
  usbSetInterface chip.alt
  bfColdInit
  babyfaceRestoreState
  bfStateApplyFlags
  bfEqReupload

end BabyfacePro
