import Mathlib.Data.Int.Notation
import Mathlib.Data.List.Basic
import Mathlib.Data.Nat.Notation

/-!
# Sample rates

The nine rates, each with the interface speed, the frame size, and the packet size that go with it.
-/

namespace BabyfacePro

/-- `struct bf_rate`. -/
structure BfRate where
  rate : ℕ
  alt : ℕ
  frame_bytes : ℕ
  /-- The frames of one packet of the interface speed, the least a URB may hold. -/
  min_fpu : ℕ
  deriving DecidableEq, Repr

/-- The alternate setting of 32 to 48 kHz. -/
def BF_ALT_1 : ℕ := 1
/-- That of 64 to 96 kHz. -/
def BF_ALT_2 : ℕ := 2
/-- That of 128 to 192 kHz. -/
def BF_ALT_3 : ℕ := 3

/-- `bf_rates`. -/
def bfRates : List BfRate :=
  [⟨32000, BF_ALT_1, 56, 8⟩, ⟨44100, BF_ALT_1, 56, 8⟩, ⟨48000, BF_ALT_1, 56, 8⟩,
    ⟨64000, BF_ALT_2, 40, 16⟩, ⟨88200, BF_ALT_2, 40, 16⟩, ⟨96000, BF_ALT_2, 40, 16⟩,
    ⟨128000, BF_ALT_3, 32, 32⟩, ⟨176400, BF_ALT_3, 32, 32⟩, ⟨192000, BF_ALT_3, 32, 32⟩]

/-- `bf_rate_lookup`. -/
def bfRateLookup (rate : ℕ) : Option BfRate := bfRates.find? fun r => r.rate = rate

/-- `bf_rate_family`. -/
def bfRateFamily (r : BfRate) : ℕ :=
  match r.rate >>> (r.alt - 1) with
  | 32000 => 0
  | 44100 => 1
  | _ => 2

/-- A rate that is found is in the table, under itself. -/
theorem bfRateLookup_some {rate : ℕ} {r : BfRate} (h : bfRateLookup rate = some r) :
    r ∈ bfRates ∧ r.rate = rate :=
  ⟨List.mem_of_find?_eq_some h, by simpa using List.find?_some h⟩

/-- A rate of the table is found. -/
theorem bfRateLookup_of_mem {r : BfRate} (h : r ∈ bfRates) : bfRateLookup r.rate = some r := by
  revert r
  decide

/-- The slowest rate is 32 kHz. -/
theorem rate_ge {r : BfRate} (h : r ∈ bfRates) : 32000 ≤ (r.rate : ℤ) := by
  revert r
  decide

end BabyfacePro
