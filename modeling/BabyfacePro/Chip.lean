import BabyfacePro.Lib.Bus
import BabyfacePro.Lib.Registers
import BabyfacePro.Regs

/-!
# The driver's state

`struct snd_usb_babyface`, in four parts: the stream, the mixer cache, the front panel, and the DSP
EQ strips. The card's memory is zeroed when it is allocated, so the zero values below are the
fields' values before `babyface_probe` sets any. Routines of the driver run in the monad `Usb`, over
this state and the transfers to the device.
-/

namespace BabyfacePro

/-- A direction of the PCM stream, by its number in the PCM core. -/
inductive Dir where
  /-- `SNDRV_PCM_STREAM_PLAYBACK`. -/
  | playback
  /-- `SNDRV_PCM_STREAM_CAPTURE`. -/
  | capture
  deriving DecidableEq, Repr

/-- The other direction, `!subs->stream`. -/
def Dir.other : Dir → Dir
  | .playback => .capture
  | .capture => .playback

/-- The other of the other direction. -/
@[simp] theorem Dir.other_other (d : Dir) : d.other.other = d := by cases d <;> rfl

/-- The directions are two. -/
theorem Dir.other_ne (d : Dir) : d.other ≠ d := by cases d <;> decide

/-- There is no third direction. -/
theorem Dir.eq_or_eq_other (d e : Dir) : e = d ∨ e = d.other := by cases d <;> cases e <;> decide

/-- The negative returns of the driver's functions. `usb` stands for whatever the USB core returned
for a transfer that failed, and `eperm` for the control core's answer to a put of a read-only
control. `fault` is no return: it marks an access outside an array. -/
inductive Errno where
  | einval
  | enodev
  | ebusy
  | epipe
  | eperm
  | usb
  | fault
  deriving DecidableEq, Repr

/-- The stream's part of the state. -/
structure Stream where
  nurbs : ℕ := 0
  frames_per_urb : ℕ := 0
  urb_frames_min : ℕ := 0
  urb_frames : ℕ := 0
  urbs_active : ℕ := 0
  session_dir : Dir := .playback
  frame_bytes : ℕ := 0
  rate : ℕ := 0
  alt : ℕ := 0
  stream_users : ℤ := 0
  stream_setup : Dir → Bool := fun _ => false
  owner : Dir → ℕ := fun _ => 0
  streaming : Bool := false
  shutdown : Bool := false
  urb_err : ℤ := 0
  /-- Whether the direction's substream is open. -/
  subs : Dir → Bool := fun _ => false
  hw_ptr : Dir → ℕ := fun _ => 0
  prev_period : Dir → ℕ := fun _ => 0
  out_inflight : ℕ := 0

/-- The mixer cache. -/
structure Mixer where
  /-- Varispeed in 0.1 %. -/
  pitch : ℤ := 0
  master : Out → Side → U16 := fun _ _ => 0
  muted : Out → Bool := fun _ => false
  xpoint : Out → Src → Side → U16 := fun _ _ _ => 0
  preamp : U16 := 0
  /-- Input gains in dB. -/
  gain : Mic → U8 := fun _ => 0
  phase : Mic → Bool := fun _ => false
  /-- Input trims in dB. -/
  trim : Mic → ℤ := fun _ => 0
  split : Out → Bool := fun _ => false
  ref_level : ℕ := 0
  loopback : Out → Bool := fun _ => false
  an12 : Bool := false
  linked : Bool := false
  ms_proc : Bool := false
  clock_optical : Bool := false
  optical_spdif : Bool := false
  width : ℤ := 0
  fx_send : U16 := 0
  dim_saved : Side → U16 := fun _ => 0
  dim : Bool := false

/-- The front panel's part of the state. -/
structure Panel where
  panel_prev : Fin 4 → U8 := fun _ => 0
  panel_seen : Bool := false
  panel_select_armed : Bool := false
  panel_select_known : Bool := false
  /-- The selection of each IN pair: `-1` not known, else left, right, both, none. -/
  panel_sel : Fin 3 → ℤ := fun _ => 0
  panel_start : ℤ := 0
  reprobe : Bool := false
  panel_button : ℕ := 0
  panel_wheel : ℤ := 0
  panel_in : ℕ := 0
  panel_out : ℕ := 0
  panel_mix : Bool := false
  panel_dim : Bool := false
  panel_saw_fader : Bool := false
  panel_select : ℤ := 0
  panel_sel_hold : ℕ := 0
  panel_master_last : Out → Side → U16 := fun _ _ => 0
  panel_out_hdb : Out → Side → ℤ := fun _ _ => 0
  panel_out_wheel_t : ℤ := 0
  panel_poll_t : ℤ := 0
  panel_out_wheel_dir : ℤ := 0
  panel_out_wheel_out : Out := 0
  panel_out_resync : Bool := false
  panel_mix_db2 : ℤ := 0
  panel_mix_disp : Mic → U8 := fun _ => 0
  dim_press_count : ℕ := 0

/-- One analog input strip of the DSP EQ, `struct bf_eq_channel`. -/
structure EqChannel where
  on : Bool := false
  /-- The low cut's slope in dB per octave. -/
  slope_db : ℤ := 0
  lc_hz : ℤ := 0
  /-- The low cut's cached word. -/
  lc_raw : BitVec 32 := 0
  /-- The slope's cached byte. -/
  slope : U8 := 0
  band_type : Fin 3 → ℤ := fun _ => 0
  band_freq : Fin 3 → ℤ := fun _ => 0
  /-- Q times 100. -/
  band_q : Fin 3 → ℤ := fun _ => 0
  /-- dB times 10. -/
  band_gain : Fin 3 → ℤ := fun _ => 0
  /-- The bands' cached words. -/
  words : Fin 3 → Fin 4 → ℤ := fun _ _ => 0
  /-- The cached scale that the bands share. -/
  shared : ℤ := 0

/-- A parameter of a strip, in the order of their control numbers. -/
inductive EqParam where
  | enable
  | type (band : Fin 3)
  | freq (band : Fin 3)
  | q (band : Fin 3)
  | gain (band : Fin 3)
  | lcFreq
  | lcSlope
  deriving DecidableEq, Repr

/-- `struct snd_usb_babyface`. -/
structure Chip extends Stream, Mixer, Panel where
  /-- The place in the cycle of the transaction flag. -/
  flag_cnt : Fin 4 := 0
  eq : Mic → EqChannel := fun _ => {}

/-- A control of the card. -/
inductive Ctl where
  | master (out : Out)
  | mute (out : Out)
  | xpoint (out : Out) (src : Src)
  | phase (mic : Mic)
  | split (pb : Out)
  | trim (mic : Mic)
  | phantom (mic : Fin 2)
  | pad (mic : Fin 2)
  | refLevel
  | gain (mic : Mic)
  | pitch
  | loopback (out : Out)
  | an12
  | clock
  | optical
  | link
  | ms
  | dim
  | width
  | fxSend
  | eq (strip : Mic) (param : EqParam)
  | panelButton
  | panelWheel
  | panelIn
  | panelOut
  | panelMix
  | panelDim
  | panelSelect (pair : Fin 3)
  | dimPress
  deriving DecidableEq, Repr

/-- The driver's routines: they return a value or a negative error code. -/
abbrev Usb := Bus.M Chip Xfer Ctl Errno

/-- The driver, the transfers and the notifications. -/
abbrev World := Bus.World Chip Xfer Ctl

/-- `bf_vendor_write`. -/
def bfVendorWrite (req : ℕ) (val : U16) (idx : ℕ) : Usb Unit := Bus.M.send .usb (.ctl req val idx)

/-- `bf_flag_cycle`. -/
def bfFlagCycle : Fin 4 → ℕ := ![0xc000, 0x4000, 0x8000, 0x0000]

/-- The transaction flag of the next writes, and a step of its cycle. -/
def nextFlag : Usb ℕ := do
  let chip ← Bus.M.get
  Bus.M.modify fun c => { c with flag_cnt := c.flag_cnt + 1 }
  return bfFlagCycle chip.flag_cnt

/-- `bf_vendor_write_cycle`. -/
def bfVendorWriteCycle (req : ℕ) (val : U16) (idx : ℕ) : Usb Unit := do
  let flag ← nextFlag
  bfVendorWrite req val (idx ||| flag)

/-! ## What a write does -/

/-- The state but for the place in the flag cycle, which every crosspoint write moves. -/
def Chip.quiet (c : Chip) : Chip := { c with flag_cnt := 0 }

/-- What is quiet is left as it is. -/
@[simp] theorem Chip.quiet_quiet (c : Chip) : c.quiet.quiet = c.quiet := rfl

/-- Two states that agree but for the flag cycle. -/
theorem Chip.quiet_eq {c d : Chip} (h : c.quiet = d.quiet) : c = { d with flag_cnt := c.flag_cnt } := by
  have := congrArg (fun x : Chip => { x with flag_cnt := c.flag_cnt }) h
  exact this

/-- A register write of a vendor request other than the crosspoint one. -/
def word (req idx : ℕ) (val : U16) : Reg × Datum := (.ctl req idx, .word val)

/-- A crosspoint register. -/
def xreg (idx : ℕ) (val : U16) : Reg × Datum := word BF_REQ_CROSSPOINT idx val

/-- `m` writes the registers `ws`, in order, up to the first transfer that fails. -/
abbrev Writes (m : Usb Unit) (ws : Chip → List (Reg × Datum)) : Prop :=
  Bus.Sends Chip.quiet Xfer.write Errno.usb m ws

/-- The flag's bits are not part of the address. -/
theorem or_flag_mod (idx : ℕ) (i : Fin 4) :
    (idx ||| bfFlagCycle i) % BF_INDEX_MASK = idx % BF_INDEX_MASK := by
  have h : bfFlagCycle i % 2 ^ 14 = 0 := by revert i; decide
  show (idx ||| bfFlagCycle i) % 2 ^ 14 = idx % 2 ^ 14
  rw [Nat.or_mod_two_pow, h, Nat.or_zero]

/-- The write of a request that carries no flag. -/
theorem bfVendorWrite_writes {req : ℕ} (val : U16) (idx : ℕ) (h : req ≠ BF_REQ_CROSSPOINT) :
    Writes (bfVendorWrite req val idx) fun _ => [word req idx val] := by
  have := @Bus.Sends.send Chip Xfer Ctl _ Errno _ Chip.quiet Xfer.write .usb (.ctl req val idx)
  rwa [Xfer.write, if_neg h] at this

/-- A crosspoint write under a flag. -/
theorem bfVendorWrite_writes_flag (val : U16) {idx : ℕ} (h : idx < BF_INDEX_MASK) (i : Fin 4) :
    Writes (bfVendorWrite BF_REQ_CROSSPOINT val (idx ||| bfFlagCycle i))
      fun _ => [xreg idx val] := by
  have := @Bus.Sends.send Chip Xfer Ctl _ Errno _ Chip.quiet Xfer.write .usb
    (.ctl BF_REQ_CROSSPOINT val (idx ||| bfFlagCycle i))
  rwa [Xfer.write, if_pos rfl, or_flag_mod, Nat.mod_eq_of_lt h] at this

/-- A crosspoint write without a flag. -/
theorem bfVendorWrite_writes_plain (val : U16) {idx : ℕ} (h : idx < BF_INDEX_MASK) :
    Writes (bfVendorWrite BF_REQ_CROSSPOINT val idx) fun _ => [xreg idx val] := by
  have h0 := bfVendorWrite_writes_flag val h 3
  rwa [show bfFlagCycle 3 = 0 from rfl, Nat.or_zero] at h0

/-- A step of the flag cycle before writes that do not depend on it. -/
theorem Writes.nextFlag {f : ℕ → Usb Unit} {ws : Chip → List (Reg × Datum)}
    (h : ∀ i, Writes (f (bfFlagCycle i)) ws) : Writes (do let flag ← nextFlag; f flag) ws := by
  unfold Writes
  refine Bus.Sends.after fun w => ?_
  exact ⟨bfFlagCycle w.chip.flag_cnt, { w.chip with flag_cnt := w.chip.flag_cnt + 1 }, rfl, rfl, ws,
    h _, rfl⟩

/-- A crosspoint write that takes a flag of its own. -/
theorem bfVendorWriteCycle_writes (val : U16) {idx : ℕ} (h : idx < BF_INDEX_MASK) :
    Writes (bfVendorWriteCycle BF_REQ_CROSSPOINT val idx) fun _ => [xreg idx val] :=
  Writes.nextFlag fun i => bfVendorWrite_writes_flag val h i

/-- A routine that reads the state first. -/
theorem Writes.get {f : Chip → Usb Unit} {ws : Chip → List (Reg × Datum)}
    (h : ∀ c, ∃ vs, Writes (f c) vs ∧ vs c.quiet = ws c.quiet) :
    Writes (do let chip ← Bus.M.get; f chip) ws := by
  unfold Writes
  exact Bus.Sends.after fun w => ⟨w.chip, w.chip, rfl, rfl, h _⟩

/-- Two routines in sequence. -/
theorem Writes.seq {m₁ m₂ : Usb Unit} {ws₁ ws₂ : Chip → List (Reg × Datum)} (h₁ : Writes m₁ ws₁)
    (h₂ : Writes m₂ ws₂) : Writes (do m₁; m₂) fun b => ws₁ b ++ ws₂ b := Bus.Sends.seq h₁ h₂

/-- The branch that is taken writes. -/
theorem Writes.ite {m₁ m₂ : Usb Unit} {ws₁ ws₂ : Chip → List (Reg × Datum)} {p : Prop} [Decidable p]
    (h₁ : p → Writes m₁ ws₁) (h₂ : ¬ p → Writes m₂ ws₂) :
    Writes (if p then m₁ else m₂) fun b => if p then ws₁ b else ws₂ b := by
  split
  · exact h₁ ‹_›
  · exact h₂ ‹_›

end BabyfacePro
