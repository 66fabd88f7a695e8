import BabyfacePro.Lib.Registers
import Mathlib.Data.Nat.Bitwise
import Mathlib.Data.Fin.VecNotation

/-!
# The register map

The vendor requests, register addresses and calibrated values of `babyfacepro.h`, and the words that
the driver sends. A vendor write carries a request, a 16-bit value and a register index; an EQ block
goes over a bulk endpoint, and the bandwidth class is set with `SET_INTERFACE`.
-/

namespace BabyfacePro

/-- A byte of the device. -/
abbrev U8 := BitVec 8

/-- A 16-bit word of the device. -/
abbrev U16 := BitVec 16

/-- The `int` that a wider integer is narrowed to. -/
def toInt32 (v : ℤ) : ℤ := v.bmod (2 ^ 32)

/-- A value within the range of an `int` is not changed by narrowing. -/
theorem toInt32_of_le {v lo hi : ℤ} (h : lo ≤ v ∧ v ≤ hi) (hlo : -(2 ^ 31) ≤ lo) (hhi : hi < 2 ^ 31) :
    toInt32 v = v := by
  unfold toInt32
  exact Int.bmod_eq_of_le (by omega) (by omega)

/-! ## Vendor requests -/

/-- The settings word, and the trigger of a session. -/
def BF_REQ_KEEPALIVE : ℕ := 0x10
/-- The crosspoints and the 16-bit masters. -/
def BF_REQ_CROSSPOINT : ℕ := 0x12
/-- The flag of an output channel's loopback. -/
def BF_REQ_LOOPBACK : ℕ := 0x15
/-- A register clear of the cold init. -/
def BF_REQ_REG_CLEAR : ℕ := 0x16
/-- The preamp's state, and the readback of the panel. -/
def BF_REQ_PREAMP : ℕ := 0x17
/-- The 8-bit gains and masters. -/
def BF_REQ_GAIN : ℕ := 0x1a
/-- The clock quads. -/
def BF_REQ_DDS : ℕ := 0x1b
/-- A status of four bytes. -/
def BF_REQ_STATUS_2 : ℕ := 0x1c
/-- The start of a session. -/
def BF_REQ_SESSION_START : ℕ := 0x1d
/-- Its arm. -/
def BF_REQ_SESSION_ARM : ℕ := 0x14
/-- The commit after a preamp write. -/
def BF_REQ_PREAMP_COMMIT : ℕ := 0x21

/-! ## Register addresses -/

/-- The bits of the rate's family. -/
def BF_REG_RATE_FAMILY : ℕ := 0x0030
/-- All bits of the settings register. -/
def BF_REG_KEEPALIVE_INIT : ℕ := 0x05ff
/-- Those that the settings word owns. -/
def BF_REG_KEEPALIVE_SETTINGS : ℕ := 0x05cf
/-- The preamp's byte. -/
def BF_REG_PREAMP : ℕ := 0x003f
/-- The gain of the first input. -/
def BF_REG_GAIN : ℕ := 0x0000
/-- The 16-bit masters, two for each output. -/
def BF_REG_MASTER_16 : ℕ := 0x03e0
/-- The 8-bit masters, two for each output. -/
def BF_REG_MASTER_8 : ℕ := 0x0004
/-- The left crosspoints of the first output. -/
def BF_REG_XPOINT_BASE_L : ℕ := 0x0000
/-- Its right crosspoints. -/
def BF_REG_XPOINT_BASE_R : ℕ := 0x001a
/-- From one output's block to the next. -/
def BF_REG_XPOINT_STRIDE : ℕ := 0x0034
/-- The left side of the AN1/2 block. -/
def BF_REG_LOWMAP_BASE_L : ℕ := BF_REG_XPOINT_BASE_L
/-- Its right side. -/
def BF_REG_LOWMAP_BASE_R : ℕ := BF_REG_XPOINT_BASE_R
/-- The display of the first input, which the gain wheel writes as well. -/
def BF_REG_PANEL_GAIN : ℕ := 0x000a

/-! ## Register values -/

/-- The internal clock. -/
def BF_SETTINGS_CLOCK_INTERNAL : U16 := 0x0001
/-- The clock of the optical input. -/
def BF_SETTINGS_CLOCK_OPTICAL : U16 := 0x0004
/-- The optical output in S/PDIF format. -/
def BF_SETTINGS_OPTICAL_SPDIF : U16 := 0x0400

/-- Reference level +4 dBu. -/
def BF_PREAMP_REF_4DBU : U16 := 0x000c
/-- The bits of the reference level. -/
def BF_PREAMP_REF_MASK : U16 := 0x000c
/-- The preamp's byte with nothing engaged. -/
def BF_PREAMP_BASE : U16 := BF_PREAMP_REF_4DBU
/-- 48V of the first input. -/
def BF_PREAMP_48V_MIC1 : U16 := 0x0001
/-- 48V of the second. -/
def BF_PREAMP_48V_MIC2 : U16 := 0x0002
/-- The pad of the first input. -/
def BF_PREAMP_PAD_MIC1 : U16 := 0x0010
/-- That of the second. -/
def BF_PREAMP_PAD_MIC2 : U16 := 0x0020

/-- The item of +4 dBu. -/
def BF_REF_LEVEL_4DBU : ℕ := 0
/-- The item of -10 dBV. -/
def BF_REF_LEVEL_MINUS10DBV : ℕ := 1
/-- The item of Boost, which has the bits of -10 dBV and a commit of its own. -/
def BF_REF_LEVEL_BOOST : ℕ := 2

/-- The highest gain of an input. -/
def BF_GAIN_MAX_DB : ℤ := 65
/-- The highest coarse part of a packed gain, in steps of 3 dB. -/
def BF_GAIN_COARSE_MAX : ℤ := 20
/-- Where its rest of 0 to 2 dB stands. -/
def BF_GAIN_FINE_SHIFT : ℕ := 5

/-- The width of the loopback map. -/
def BF_LOOPBACK_CHANNELS : ℕ := 30

/-- 0 dB on a 16-bit master. -/
def BF_MASTER_0DB : U16 := 0x2000
/-- 0 dB on an 8-bit one. -/
def BF_MASTER_8_0DB : ℤ := 0xf3
/-- Its bottom, -64 dB. -/
def BF_MASTER_8_MIN : ℤ := 0x73
/-- A muted 8-bit master. -/
def BF_MASTER_MUTE : U8 := 0x3b
/-- One at 0 dB, as the default mixer writes it. -/
def BF_MASTER_UNMUTE : U8 := 0xf3
/-- -20 dB on an 8-bit master. -/
def BF_MASTER_MINUS20_8 : U8 := 0xcb
/-- -20 dB on a 16-bit one. -/
def BF_MASTER_MINUS20_16 : U16 := 0x0333
/-- The step of a master control at 0 dB; step 0 is mute, and step 1 is -90 dB. -/
def BF_MASTER_STEP_0DB : ℤ := 181
/-- Its highest step, +6 dB. -/
def BF_MASTER_STEP_MAX : ℤ := 193
/-- Its step at -20 dB. -/
def BF_MASTER_STEP_MINUS20 : ℤ := BF_MASTER_STEP_0DB - 40

/-- 0 dB on a fader. -/
def BF_FADER_0DB : U16 := 0x16a0
/-- The top of a fader, +6 dB. -/
def BF_FADER_TOP : ℤ := 0x2d41

/-- The first playback pair among the sources. -/
def BF_SRC_PB1 : ℕ := 8

/-! ## Indices of the mixer's controls -/

-- The sizes of the index types by name, so that a literal index is one term wherever it is written.
/-- There are two sides. -/
instance neZero_two : NeZero (2 : ℕ) := ⟨two_ne_zero⟩
/-- There are three pairs of the panel. -/
instance neZero_three : NeZero (3 : ℕ) := ⟨three_ne_zero⟩
/-- There are four inputs. -/
instance neZero_four : NeZero (4 : ℕ) := ⟨four_ne_zero⟩
/-- There are five items. -/
instance neZero_five : NeZero (5 : ℕ) := ⟨Nat.succ_ne_zero 4⟩
/-- There are six outputs. -/
instance neZero_six : NeZero (6 : ℕ) := ⟨Nat.succ_ne_zero 5⟩
/-- There are fourteen sources. -/
instance neZero_fourteen : NeZero (14 : ℕ) := ⟨Nat.succ_ne_zero 13⟩

/-- An output pair, in the canonical order AN1/2, PH3/4, AS1/2, ADAT3/4, ADAT5/6, ADAT7/8. -/
abbrev Out := Fin 6

/-- A crosspoint source, in the order of `bf_sources`. -/
abbrev Src := Fin 14

/-- An analog input, AN1 to AN4. -/
abbrev Mic := Fin 4

/-- A side of a stereo pair: `0` for left, `1` for right. -/
abbrev Side := Fin 2

/-- A side is left or right. -/
theorem left_or_right (side : Side) : side = 0 ∨ side = 1 := by revert side; decide

/-- The source of an analog input. -/
def Mic.src (mic : Mic) : Src := mic.castLE (by decide)

/-- The source of a playback pair, `8 + pb`. -/
def pbSrc (pb : Out) : Src := ⟨BF_SRC_PB1 + pb, by unfold BF_SRC_PB1; omega⟩

/-- The place of a source in an output's crosspoint block. -/
structure BfSource where
  /-- The source's register on the left side. -/
  idx_l : ℕ
  /-- The source's register on the right side. -/
  idx_r : ℕ

/-- `bf_sources`: AN1 to AN4, AS1/2, ADAT3/4, ADAT5/6, ADAT7/8, PB1 to PB6. -/
def bfSources : Src → BfSource :=
  ![⟨0, 0⟩, ⟨1, 1⟩, ⟨2, 2⟩, ⟨3, 3⟩, ⟨4, 5⟩, ⟨6, 7⟩, ⟨8, 9⟩, ⟨10, 11⟩, ⟨12, 13⟩, ⟨14, 15⟩,
    ⟨16, 17⟩, ⟨18, 19⟩, ⟨20, 21⟩, ⟨22, 23⟩]

/-! ## Transfers -/

/-- A transfer to the device. -/
inductive Xfer where
  /-- A vendor request with its value and index. -/
  | ctl (req : ℕ) (val : U16) (idx : ℕ)
  /-- A block of the DSP EQ on the bulk endpoint. -/
  | bulk (block : List U8)
  /-- `usb_set_interface` on the audio interface. -/
  | setInterface (alt : ℕ)
  deriving DecidableEq, Repr

/-- A register of the device. -/
inductive Reg where
  /-- The register that a vendor request writes at an index. -/
  | ctl (req idx : ℕ)
  /-- The EQ block of a channel. -/
  | eq (ch : U8)
  /-- The alternate setting of the audio interface. -/
  | iface
  deriving DecidableEq, Repr

/-- What a register holds. -/
inductive Datum where
  /-- A 16-bit word. -/
  | word (v : U16)
  /-- An EQ block. -/
  | block (b : List U8)
  /-- An alternate setting. -/
  | alt (n : ℕ)
  deriving DecidableEq, Repr

/-- The two top bits of `wIndex` count the transactions of request 0x12 and are not part of the
address. -/
def BF_INDEX_MASK : ℕ := 0x4000

/-- The register that a transfer names, and the value that it carries. The transaction bits of the
crosspoint request are masked. -/
def Xfer.write : Xfer → Reg × Datum
  | .ctl req val idx =>
    (.ctl req (if req = BF_REQ_CROSSPOINT then idx % BF_INDEX_MASK else idx), .word val)
  | .bulk block => (.eq (block.headD 0), .block block)
  | .setInterface alt => (.iface, .alt alt)

/-- What a write does in the device: the cold-init clear zeroes the crosspoint register that it
names, and any other write sets the register that it names. -/
def effect (w : Reg × Datum) : Reg × Datum :=
  match w.1 with
  | .ctl req idx => if req = BF_REQ_REG_CLEAR then (.ctl BF_REQ_CROSSPOINT idx, .word 0) else w
  | _ => w

/-- What the device's registers hold after the transfers `wire`, from the contents `d` before. -/
def contents (d : Reg → Datum) (wire : List Xfer) : Reg → Datum :=
  Registers.apply d (wire.map fun x => effect x.write)

end BabyfacePro
