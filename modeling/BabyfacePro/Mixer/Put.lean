import BabyfacePro.Mixer.Writes

/-!
# The mixer's put handlers

Every handler checks its value, returns 0 when it is the cached one, and otherwise writes and caches
it. Those of phantom power, pad, ref level, clock, optical format and DIM change the cache first.
`Handles` states what a handler does with a value that it accepts.
-/

namespace BabyfacePro

open Bus.M (get modify throw writeThrough writeBack notifying)

/-- What a put handler does with an accepted value: `same` is its test for an unchanged value, `ws`
its writes, `commit` and `fails` the states that it leaves, and `ns` the controls that it notifies. -/
abbrev Handles (put : Usb ℕ) (same : Chip → Bool) (ws : Chip → List (Reg × Datum))
    (commit fails : Chip → Chip) (ns : Chip → List Ctl) : Prop :=
  Bus.Puts Chip.quiet Xfer.write Errno.usb put same ws commit fails ns

/-- A handler that writes first. -/
theorem Handles.writeThrough {m : Usb Unit} {ws : Chip → List (Reg × Datum)} {same : Chip → Bool}
    {commit : Chip → Chip} (hm : Writes m ws) (hsame : ∀ c : Chip, same c.quiet = same c)
    (hcommit : ∀ c : Chip, (commit c.quiet).quiet = (commit c).quiet) :
    Handles (Bus.M.writeThrough same m commit) same ws commit id fun _ => [] :=
  Bus.Puts.writeThrough hm (fun _ => rfl) hsame hcommit

/-- A handler that changes the cache first. -/
theorem Handles.writeBack {m : Usb Unit} {ws : Chip → List (Reg × Datum)} {same : Chip → Bool}
    {set : Chip → Chip} {undo : Chip → Chip → Chip} (hm : Writes m ws)
    (hsame : ∀ c : Chip, same c.quiet = same c)
    (hset : ∀ c : Chip, (set c.quiet).quiet = (set c).quiet)
    (hundo : ∀ c d : Chip, (undo c.quiet d.quiet).quiet = (undo c d).quiet) :
    Handles (Bus.M.writeBack same set m undo) same (fun c => ws (set c).quiet) set
      (fun c => undo c (set c)) fun _ => [] :=
  Bus.Puts.writeBack hm (fun _ => rfl) hsame hset hundo

/-! ## Masters and mutes -/

/-- A new master in the cache. A Phones change while DIM is engaged re-bases the restore point. -/
def cacheMaster (out : Out) (l r : U16) (c : Chip) : Chip :=
  { c with
    master := Function.update c.master out ![l, r]
    dim_saved := if c.dim && out = 1 then ![l, r] else c.dim_saved }

/-- `bf_master_put`. -/
def bfMasterPut (out : Out) (nl nr : ℤ) : Usb ℕ :=
  if nl < 0 ∨ nl > BF_MASTER_STEP_MAX ∨ nr < 0 ∨ nr > BF_MASTER_STEP_MAX then
    throw .einval
  else
    let l := .ofInt 16 nl
    let r := .ofInt 16 nr
    writeThrough (fun c => l == c.master out 0 && r == c.master out 1)
      (do
        let chip ← get
        writeOut out (chip.muted out) (out = 1 && chip.dim) l r)
      (cacheMaster out l r)

/-- The put of a master writes the output's registers unless both steps are cached. -/
theorem bfMasterPut_handles (out : Out) {nl nr : ℤ} (hl : 0 ≤ nl ∧ nl ≤ BF_MASTER_STEP_MAX)
    (hr : 0 ≤ nr ∧ nr ≤ BF_MASTER_STEP_MAX) :
    Handles (bfMasterPut out nl nr)
      (fun c => BitVec.ofInt 16 nl == c.master out 0 && BitVec.ofInt 16 nr == c.master out 1)
      (fun c => outRegs out (c.muted out) (out = 1 && c.dim) (.ofInt 16 nl) (.ofInt 16 nr))
      (cacheMaster out (.ofInt 16 nl) (.ofInt 16 nr)) id fun _ => [] := by
  unfold bfMasterPut
  rw [if_neg (by omega)]
  exact Handles.writeThrough (Writes.get fun _ => ⟨_, writeOut_writes _ _ _ _ _, rfl⟩)
    (fun _ => rfl) fun _ => rfl

/-- `bf_mute_put`: the switch is on when the output is not muted. -/
def bfMutePut (out : Out) (v : ℤ) : Usb ℕ :=
  let muted : Bool := v = 0
  writeThrough (fun c => muted == c.muted out)
    (do
      let chip ← get
      writeOut out muted (out = 1 && chip.dim) (chip.master out 0) (chip.master out 1))
    fun c => { c with muted := Function.update c.muted out muted }

/-- The put of a mute writes the output's registers, with the cached steps. -/
theorem bfMutePut_handles (out : Out) (v : ℤ) :
    Handles (bfMutePut out v) (fun c => decide (v = 0) == c.muted out)
      (fun c => outRegs out (v = 0) (out = 1 && c.dim) (c.master out 0) (c.master out 1))
      (fun c => { c with muted := Function.update c.muted out (v = 0) }) id fun _ => [] :=
  Handles.writeThrough (Writes.get fun _ => ⟨_, writeOut_writes _ _ _ _ _, rfl⟩)
    (fun _ => rfl) fun _ => rfl

/-! ## Crosspoints and their overlays -/

/-- A new crosspoint in the cache. -/
def cacheXpoint (out : Out) (src : Src) (l r : U16) (c : Chip) : Chip :=
  { c with
    xpoint := Function.update c.xpoint out (Function.update (c.xpoint out) src ![l, r]) }

/-- `bf_xpoint_put`. -/
def bfXpointPut (out : Out) (src : Src) (nl nr : ℤ) : Usb ℕ :=
  if nl < 0 ∨ nl > BF_FADER_TOP ∨ nr < 0 ∨ nr > BF_FADER_TOP then
    throw .einval
  else
    let l := .ofInt 16 nl
    let r := .ofInt 16 nr
    writeThrough (fun c => l == c.xpoint out src 0 && r == c.xpoint out src 1)
      (bfXpointWrite out src l r) (cacheXpoint out src l r)

/-- The put of a fader writes the two crosspoints of its pair. -/
theorem bfXpointPut_handles (out : Out) (src : Src) {nl nr : ℤ} (hl : 0 ≤ nl ∧ nl ≤ BF_FADER_TOP)
    (hr : 0 ≤ nr ∧ nr ≤ BF_FADER_TOP) :
    Handles (bfXpointPut out src nl nr)
      (fun c => BitVec.ofInt 16 nl == c.xpoint out src 0 && BitVec.ofInt 16 nr == c.xpoint out src 1)
      (fun _ => xpointRegs out src (.ofInt 16 nl) (.ofInt 16 nr))
      (cacheXpoint out src (.ofInt 16 nl) (.ofInt 16 nr)) id fun _ => [] := by
  unfold bfXpointPut
  rw [if_neg (by omega)]
  exact Handles.writeThrough (bfXpointWrite_writes _ _ _ _) (fun _ => rfl) fun _ => rfl

/-- `bf_phase_put`. -/
def bfPhasePut (mic : Mic) (v : ℤ) : Usb ℕ :=
  let invert : Bool := v ≠ 0
  writeThrough (fun c => invert == c.phase mic) (bfPhaseApply mic invert)
    fun c => { c with phase := Function.update c.phase mic invert }

/-- The put of a phase inversion writes the crosspoints of its input. -/
theorem bfPhasePut_handles (mic : Mic) (v : ℤ) :
    Handles (bfPhasePut mic v) (fun c => decide (v ≠ 0) == c.phase mic) (phaseRegs mic (v ≠ 0))
      (fun c => { c with phase := Function.update c.phase mic (v ≠ 0) }) id fun _ => [] :=
  Handles.writeThrough (bfPhaseApply_writes _ _) (fun _ => rfl) fun _ => rfl

/-- `bf_split_put`. -/
def bfSplitPut (pb : Out) (v : ℤ) : Usb ℕ :=
  let split : Bool := v ≠ 0
  writeThrough (fun c => split == c.split pb) (bfSplitApply pb split)
    fun c => { c with split := Function.update c.split pb split }

/-- The put of a split writes the crosspoints of its playback pair. -/
theorem bfSplitPut_handles (pb : Out) (v : ℤ) :
    Handles (bfSplitPut pb v) (fun c => decide (v ≠ 0) == c.split pb) (splitRegs pb (v ≠ 0))
      (fun c => { c with split := Function.update c.split pb (v ≠ 0) }) id fun _ => [] :=
  Handles.writeThrough (bfSplitApply_writes _ _) (fun _ => rfl) fun _ => rfl

/-- The other input of a pair, `mic ^ 1`. -/
def Mic.sib (mic : Mic) : Mic := ⟨mic.val ^^^ 1, by revert mic; decide⟩

/-- An input is not its own sibling. -/
theorem Mic.ne_sib (mic : Mic) : mic ≠ mic.sib := by revert mic; decide

/-- A new trim in the cache, for both inputs of the pair. -/
def cacheTrim (mic : Mic) (db : ℤ) (c : Chip) : Chip :=
  { c with trim := Function.update (Function.update c.trim mic db) mic.sib db }

/-- `bf_trim_put`. -/
def bfTrimPut (mic : Mic) (v : ℤ) : Usb ℕ :=
  let db := toInt32 v
  if db < -65 ∨ db > 6 then
    throw .einval
  else
    notifying
      (writeThrough (fun c => db == c.trim mic) (bfTrimApply mic (db * 2)) (cacheTrim mic db))
      fun _ => [.trim mic.sib]

/-- The put of a trim writes its pair, and tells of the sibling's change. -/
theorem bfTrimPut_handles (mic : Mic) {v : ℤ} (h : -65 ≤ toInt32 v ∧ toInt32 v ≤ 6) :
    Handles (bfTrimPut mic v) (fun c => toInt32 v == c.trim mic)
      (fun _ => trimRegs mic (toInt32 v * 2)) (cacheTrim mic (toInt32 v)) id
      fun _ => [.trim mic.sib] := by
  unfold bfTrimPut
  rw [if_neg (by omega)]
  exact Bus.Puts.notifying (Handles.writeThrough (bfTrimApply_writes _ _) (fun _ => rfl)
    fun _ => rfl) fun _ => rfl

/-- `bf_ms_put`. -/
def bfMsPut (v : ℤ) : Usb ℕ :=
  let on : Bool := v ≠ 0
  writeThrough (fun c => on == c.ms_proc)
    (if on then writeMs
    else do
      let chip ← get
      bfXpointWrite 0 1 (chip.xpoint 0 1 0) (chip.xpoint 0 1 1)
      bfXpointWrite 1 1 (chip.xpoint 1 1 0) (chip.xpoint 1 1 1))
    fun c => { c with ms_proc := on }

/-- The AN2 crosspoints into AN1/2 and PH3/4, muted or as cached. -/
def msPutRegs (on : Bool) (c : Chip) : List (Reg × Datum) :=
  if on then msRegs
  else xpointRegs 0 1 (c.xpoint 0 1 0) (c.xpoint 0 1 1) ++
    xpointRegs 1 1 (c.xpoint 1 1 0) (c.xpoint 1 1 1)

/-- The put of the MS processing writes the crosspoints of the first pair. -/
theorem bfMsPut_handles (v : ℤ) :
    Handles (bfMsPut v) (fun c => decide (v ≠ 0) == c.ms_proc) (msPutRegs (v ≠ 0))
      (fun c => { c with ms_proc := v ≠ 0 }) id fun _ => [] :=
  Handles.writeThrough
    (Writes.ite (fun _ => writeMs_writes) fun _ => Writes.get fun _ =>
      ⟨_, (bfXpointWrite_writes _ _ _ _).seq (bfXpointWrite_writes _ _ _ _), rfl⟩)
    (fun _ => rfl) fun _ => rfl

/-- `bf_width_put`. -/
def bfWidthPut (w : ℤ) : Usb ℕ :=
  if w < -100 ∨ w > 100 then
    throw .einval
  else
    writeThrough (fun c => w == c.width) (bfWidthApply w) fun c => { c with width := w }

/-- The put of the width writes the crosspoints of the first pair. -/
theorem bfWidthPut_handles {w : ℤ} (h : -100 ≤ w ∧ w ≤ 100) :
    Handles (bfWidthPut w) (fun c => w == c.width) (fun _ => widthRegs w)
      (fun c => { c with width := w }) id fun _ => [] := by
  unfold bfWidthPut
  rw [if_neg (by omega)]
  exact Handles.writeThrough (bfWidthApply_writes _) (fun _ => rfl) fun _ => rfl

/-- `bf_fx_send_put`. -/
def bfFxSendPut (nv : ℤ) : Usb ℕ :=
  if nv < 0 ∨ nv > 0x1000 then
    throw .einval
  else
    let v := .ofInt 16 nv
    writeThrough (fun c => v == c.fx_send) (writeFx v) fun c => { c with fx_send := v }

/-- The put of the FX send writes its own two registers. -/
theorem bfFxSendPut_handles {nv : ℤ} (h : 0 ≤ nv ∧ nv ≤ 0x1000) :
    Handles (bfFxSendPut nv) (fun c => BitVec.ofInt 16 nv == c.fx_send)
      (fun _ => fxRegs (.ofInt 16 nv)) (fun c => { c with fx_send := .ofInt 16 nv }) id
      fun _ => [] := by
  unfold bfFxSendPut
  rw [if_neg (by omega)]
  exact Handles.writeThrough (writeFx_writes _) (fun _ => rfl) fun _ => rfl

/-! ## Preamp -/

/-- The preamp byte with a bit on or off. -/
def setBit (preamp bit : U16) (on : Bool) : U16 := if on then preamp ||| bit else preamp &&& ~~~bit

/-- The preamp byte put back to what it was. -/
def restorePreamp (old c : Chip) : Chip := { c with preamp := old.preamp }

/-- `bf_phantom_put`, for the phantom and pad switches: `bit` is the switch's bit of the preamp byte.
An error puts the byte back. -/
def bfPhantomPut (bit : U16) (v : ℤ) : Usb ℕ :=
  let on : Bool := v ≠ 0
  writeBack (fun c => on == decide (c.preamp &&& bit ≠ 0))
    (fun c => { c with preamp := setBit c.preamp bit on }) bfPreampStateWrite restorePreamp

/-- The put of 48V writes the preamp byte with its bit. -/
theorem bfPhantomPut_handles (bit : U16) (v : ℤ) :
    Handles (bfPhantomPut bit v) (fun c => decide (v ≠ 0) == decide (c.preamp &&& bit ≠ 0))
      (fun c => preampRegs { c with preamp := setBit c.preamp bit (v ≠ 0) })
      (fun c => { c with preamp := setBit c.preamp bit (v ≠ 0) }) id fun _ => [] :=
  Handles.writeBack bfPreampStateWrite_writes (fun _ => rfl) (fun _ => rfl) fun _ _ => rfl

/-- A new ref level in the cache: the level, and its bits of the preamp byte. -/
def cacheRefLevel (item : ℕ) (c : Chip) : Chip :=
  { c with
    preamp := (c.preamp &&& ~~~BF_PREAMP_REF_MASK) |||
      (if item = BF_REF_LEVEL_4DBU then BF_PREAMP_REF_4DBU else 0)
    ref_level := item }

/-- `bf_reflevel_put`. An error puts the byte and the level back. -/
def bfReflevelPut (item : ℕ) : Usb ℕ :=
  if item > BF_REF_LEVEL_BOOST then
    throw .einval
  else
    writeBack (fun c => item == c.ref_level) (cacheRefLevel item) bfPreampStateWrite
      fun old c => { c with preamp := old.preamp, ref_level := old.ref_level }

/-- The put of a reference level writes the preamp byte with its bits. -/
theorem bfReflevelPut_handles {item : ℕ} (h : item ≤ BF_REF_LEVEL_BOOST) :
    Handles (bfReflevelPut item) (fun c => item == c.ref_level)
      (fun c => preampRegs (cacheRefLevel item c)) (cacheRefLevel item) id fun _ => [] := by
  unfold bfReflevelPut
  rw [if_neg (by omega)]
  exact Handles.writeBack bfPreampStateWrite_writes (fun _ => rfl) (fun _ => rfl) fun _ _ => rfl

/-- The register of an input gain. -/
def gainRegs (mic : Mic) (db : ℤ) : List (Reg × Datum) :=
  [word BF_REQ_GAIN (BF_REG_GAIN + mic) ((bfGainRaw mic db).setWidth 16)]

/-- `bf_gain_put`. -/
def bfGainPut (mic : Mic) (v : ℤ) : Usb ℕ :=
  let db := toInt32 v
  if db < 0 ∨ db > bfGainMaxDb mic then
    throw .einval
  else
    writeThrough (fun c => db == (c.gain mic).toNat)
      (bfVendorWrite BF_REQ_GAIN ((bfGainRaw mic db).setWidth 16) (BF_REG_GAIN + mic))
      fun c => { c with gain := Function.update c.gain mic (.ofInt 8 db) }

/-- The put of a gain writes its input's register. -/
theorem bfGainPut_handles (mic : Mic) {v : ℤ} (h : 0 ≤ toInt32 v ∧ toInt32 v ≤ bfGainMaxDb mic) :
    Handles (bfGainPut mic v) (fun c => toInt32 v == (c.gain mic).toNat)
      (fun _ => gainRegs mic (toInt32 v))
      (fun c => { c with gain := Function.update c.gain mic (.ofInt 8 (toInt32 v)) }) id
      fun _ => [] := by
  unfold bfGainPut
  rw [if_neg (by omega)]
  exact Handles.writeThrough (bfVendorWrite_writes _ _ (by decide)) (fun _ => rfl)
    fun _ => rfl

/-! ## Flags -/

/-- `bf_pitch_put`. -/
def bfPitchPut (np : ℤ) : Usb ℕ :=
  if np < -50 ∨ np > 50 then
    throw .einval
  else
    writeThrough (fun c => np == c.pitch) (bfPitchWrite np) fun c => { c with pitch := np }

/-- The put of the pitch writes the varispeed quad and the settings word. -/
theorem bfPitchPut_handles {np : ℤ} (h : -50 ≤ np ∧ np ≤ 50) :
    Handles (bfPitchPut np) (fun c => np == c.pitch) (pitchRegs np)
      (fun c => { c with pitch := np }) id fun _ => [] := by
  unfold bfPitchPut
  rw [if_neg (by omega)]
  exact Handles.writeThrough (bfPitchWrite_writes _) (fun _ => rfl) fun _ => rfl

/-- The last output whose loopback is on, `prev`. -/
def loopbackPrev (c : Chip) : Option Out :=
  (List.finRange 6).foldl (fun prev i => if c.loopback i then some i else prev) none

/-- The control whose output a loopback put turns off besides its own. -/
def loopbackNotes (out : Out) (on : Bool) (c : Chip) : List Ctl :=
  match loopbackPrev c with
  | some prev => if on && prev ≠ out then [.loopback prev] else []
  | none => []

/-- A new loopback in the cache: one output at most is on. -/
def cacheLoopback (out : Out) (on : Bool) (c : Chip) : Chip :=
  { c with loopback := Function.update (fun _ => false) out on }

/-- `bf_loopback_put`. -/
def bfLoopbackPut (out : Out) (v : ℤ) : Usb ℕ :=
  let on : Bool := v ≠ 0
  notifying
    (writeThrough (fun c => on == c.loopback out) (bfLoopbackWriteMap out on)
      (cacheLoopback out on))
    (loopbackNotes out on)

/-- The put of a loopback writes the whole map, and tells of the ones that it switches off. -/
theorem bfLoopbackPut_handles (out : Out) (v : ℤ) :
    Handles (bfLoopbackPut out v) (fun c => decide (v ≠ 0) == c.loopback out)
      (fun _ => loopbackRegs out (decide (v ≠ 0))) (cacheLoopback out (v ≠ 0)) id
      (loopbackNotes out (v ≠ 0)) :=
  Bus.Puts.notifying (Handles.writeThrough (bfLoopbackWriteMap_writes _ _) (fun _ => rfl)
    fun _ => rfl) fun _ => rfl

/-- `bf_an12_put`. -/
def bfAn12Put (v : ℤ) : Usb ℕ :=
  let an12 : Bool := v ≠ 0
  writeThrough (fun c => an12 == c.an12)
    (do
      let chip ← get
      writeLink chip.linked an12)
    fun c => { c with an12 := an12 }

/-- The put of the AN1/2 link writes the link word. -/
theorem bfAn12Put_handles (v : ℤ) :
    Handles (bfAn12Put v) (fun c => decide (v ≠ 0) == c.an12)
      (fun c => linkRegs c.linked (v ≠ 0) c) (fun c => { c with an12 := v ≠ 0 }) id fun _ => [] :=
  Handles.writeThrough (Writes.get fun _ => ⟨_, writeLink_writes _ _, rfl⟩) (fun _ => rfl)
    fun _ => rfl

/-- `bf_link_put`. -/
def bfLinkPut (v : ℤ) : Usb ℕ :=
  let linked : Bool := v ≠ 0
  writeThrough (fun c => linked == c.linked)
    (do
      let chip ← get
      writeLink linked chip.an12)
    fun c => { c with linked := linked }

/-- The put of the link writes the link word. -/
theorem bfLinkPut_handles (v : ℤ) :
    Handles (bfLinkPut v) (fun c => decide (v ≠ 0) == c.linked)
      (fun c => linkRegs (v ≠ 0) c.an12 c) (fun c => { c with linked := v ≠ 0 }) id fun _ => [] :=
  Handles.writeThrough (Writes.get fun _ => ⟨_, writeLink_writes _ _, rfl⟩) (fun _ => rfl)
    fun _ => rfl

/-- `bf_clock_put`. An error puts the source back. -/
def bfClockPut (item : ℕ) : Usb ℕ :=
  if item > 1 then
    throw .einval
  else
    let optical : Bool := item ≠ 0
    writeBack (fun c => optical == c.clock_optical) (fun c => { c with clock_optical := optical })
      bfSettingsWrite fun _ c => { c with clock_optical := !optical }

/-- The put of the clock source writes the settings word. -/
theorem bfClockPut_handles {item : ℕ} (h : item ≤ 1) :
    Handles (bfClockPut item) (fun c => decide (item ≠ 0) == c.clock_optical)
      (fun c => settingsRegs { c with clock_optical := item ≠ 0 })
      (fun c => { c with clock_optical := item ≠ 0 })
      (fun c => { c with clock_optical := !decide (item ≠ 0) }) fun _ => [] := by
  unfold bfClockPut
  rw [if_neg (by omega)]
  exact Handles.writeBack bfSettingsWrite_writes (fun _ => rfl) (fun _ => rfl) fun _ _ => rfl

/-- `bf_optical_put`. An error puts the format back. -/
def bfOpticalPut (item : ℕ) : Usb ℕ :=
  if item > 1 then
    throw .einval
  else
    let spdif : Bool := item ≠ 0
    writeBack (fun c => spdif == c.optical_spdif) (fun c => { c with optical_spdif := spdif })
      bfSettingsWrite fun _ c => { c with optical_spdif := !spdif }

/-- The put of the optical format writes the settings word. -/
theorem bfOpticalPut_handles {item : ℕ} (h : item ≤ 1) :
    Handles (bfOpticalPut item) (fun c => decide (item ≠ 0) == c.optical_spdif)
      (fun c => settingsRegs { c with optical_spdif := item ≠ 0 })
      (fun c => { c with optical_spdif := item ≠ 0 })
      (fun c => { c with optical_spdif := !decide (item ≠ 0) }) fun _ => [] := by
  unfold bfOpticalPut
  rw [if_neg (by omega)]
  exact Handles.writeBack bfSettingsWrite_writes (fun _ => rfl) (fun _ => rfl) fun _ _ => rfl

/-- `bf_dim_put`. -/
def bfDimPut (v : ℤ) : Usb ℕ := do
  let on : Bool := v ≠ 0
  let chip ← get
  if on == chip.dim then
    return 0
  bfDimApply on
  return 1

/-- An error puts the flag back, and leaves a restore point that is read only while DIM is on. -/
theorem bfDimPut_handles (v : ℤ) :
    Handles (bfDimPut v) (fun c => decide (v ≠ 0) == c.dim)
      (fun c => dimRegs (v ≠ 0) (setDim (v ≠ 0) c)) (setDim (v ≠ 0))
      (fun c => { setDim (v ≠ 0) c with dim := c.dim }) fun _ => [] :=
  Handles.writeBack (writeDim_writes _) (fun _ => rfl) (fun _ => rfl) fun _ _ => rfl

end BabyfacePro
