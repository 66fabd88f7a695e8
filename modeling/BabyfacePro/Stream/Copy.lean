import BabyfacePro.Lib.Ring
import BabyfacePro.Stream.Geometry

/-!
# The copies between the ring and the URBs

`babyface_capture_copy` and `babyface_playback_copy` on bytes of memory, with the two counters that
they move on. A run of URBs since START is exact as long as the frames since START fit the counter
(`ring_copy_exact`); past that only for sizes that divide the counter's range
(`pointer_wraps_iff`).
-/

namespace BabyfacePro

open Ring

/-- A part of memory, by the bytes from its start. -/
abbrev Mem := ℕ → U8

/-- What the stream reads of `struct snd_pcm_runtime`. -/
structure Runtime where
  rate : ℕ
  channels : ℕ
  period_size : ℕ
  buffer_size : ℕ
  deriving DecidableEq, Repr

/-- `frames_to_bytes`, for samples of 32 bits. -/
def framesToBytes (rt : Runtime) (frames : ℕ) : ℕ := frames * (rt.channels * 4)

/-- What `babyface_pcm_hw` and the constraints of `babyface_pcm_open` leave to an application, except
for the rules. -/
structure Admitted (c : Chip) (rt : Runtime) : Prop where
  rate : ∃ r ∈ bfRates, r.rate = rt.rate
  channels : 2 ≤ rt.channels ∧ rt.channels ≤ 12
  period_size : c.urb_frames_min ≤ rt.period_size ∧ rt.period_size ≤ 2 ^ 18
  period_bytes : framesToBytes rt rt.period_size ≤ 2 ^ 18
  buffer_bytes : framesToBytes rt rt.buffer_size ≤ 2 ^ 20
  periods : 2 * rt.period_size ≤ rt.buffer_size ∧ rt.buffer_size ≤ 16 * rt.period_size

/-! ## Counters -/

/-- The counters of a direction, cleared by prepare and by START. -/
def resetPtr (d : Dir) (c : Chip) : Chip :=
  { c with
    hw_ptr := Function.update c.hw_ptr d 0
    prev_period := Function.update c.prev_period d 0 }

/-- The end of both copies: the counters move on by a URB, in words of `w` bits. Whether that crossed
a period is returned. -/
def advance (w : ℕ) (rt : Runtime) (d : Dir) (frames : ℕ) (c : Chip) : Bool × Chip :=
  let c := { c with hw_ptr := Function.update c.hw_ptr d ((c.hw_ptr d + frames) % 2 ^ w) }
  let new_period := c.hw_ptr d / rt.period_size
  if new_period ≠ c.prev_period d then
    (true, { c with prev_period := Function.update c.prev_period d new_period })
  else (false, c)

/-- `babyface_pcm_pointer`, without the delay that it reports beside. -/
def babyfacePcmPointer (rt : Runtime) (d : Dir) (c : Chip) : ℕ := c.hw_ptr d % rt.buffer_size

/-! ## Capture -/

/-- One frame of `babyface_capture_copy`. -/
def captureFrame (rt : Runtime) (frame_bytes : ℕ) (data : Mem) (f pos : ℕ) (area : Mem) : Mem :=
  let words := frame_bytes / 4
  let chans := rt.channels
  let copy := min chans words * 4
  let dst := framesToBytes rt pos
  let area := memcpy area dst (fun i => data (f * frame_bytes + i)) copy
  if chans > words then memset area (dst + copy) 0 ((chans - words) * 4) else area

/-- `babyface_capture_copy`. -/
def babyfaceCaptureCopy (w : ℕ) (rt : Runtime) (data : Mem) (frames : ℕ) (c : Chip) (area : Mem) :
    Bool × Chip × Mem :=
  let pos := c.hw_ptr .capture % rt.buffer_size
  let area := loop (captureFrame rt c.frame_bytes data) rt.buffer_size frames 0 pos area
  let (crossed, c) := advance w rt .capture frames c
  (crossed, c, area)

/-- A completed IN URB. -/
structure InUrb where
  actual_length : ℕ
  transfer_buffer : Mem

/-- `babyface_capture_urb`. -/
def babyfaceCaptureUrb (w : ℕ) (running : Bool) (rt : Runtime) (urb : InUrb) (c : Chip)
    (area : Mem) : Bool × Chip × Mem :=
  if !running then (false, c, area)
  else
    let frames := urb.actual_length / c.frame_bytes
    if frames = 0 then (false, c, area)
    else babyfaceCaptureCopy w rt urb.transfer_buffer frames c area

/-- The URBs that complete one after the other while a capture substream runs, with what each of
them reports. -/
def captureRun (w : ℕ) (rt : Runtime) : List InUrb → Chip → Mem → List Bool × Chip × Mem
  | [], c, area => ([], c, area)
  | urb :: urbs, c, area =>
    let (crossed, c, area) := babyfaceCaptureUrb w true rt urb c area
    let (reports, c, area) := captureRun w rt urbs c area
    (crossed :: reports, c, area)

/-! ## Playback -/

/-- One frame of `babyface_playback_copy`. -/
def playbackFrame (rt : Runtime) (frame_bytes : ℕ) (area : Mem) (f pos : ℕ) (data : Mem) : Mem :=
  let words := frame_bytes / 4
  let copy := min rt.channels words * 4
  let frame := f * frame_bytes
  let src := framesToBytes rt pos
  let data := memcpy data frame (fun i => area (src + i)) copy
  memset data (frame + copy) 0 (words * 4 - copy)

/-- `babyface_playback_copy`. -/
def babyfacePlaybackCopy (w : ℕ) (rt : Runtime) (area : Mem) (frames : ℕ) (c : Chip) (data : Mem) :
    Bool × Chip × Mem :=
  let pos := c.hw_ptr .playback % rt.buffer_size
  let data := loop (playbackFrame rt c.frame_bytes area) rt.buffer_size frames 0 pos data
  let (crossed, c) := advance w rt .playback frames c
  (crossed, c, data)

/-- A completed OUT URB. -/
structure OutUrb where
  transfer_buffer_length : ℕ
  transfer_buffer : Mem

/-- `babyface_playback_urb`: whether a period was crossed, whether the URB was fed, and what it then
holds. -/
def babyfacePlaybackUrb (w : ℕ) (running : Bool) (rt : Runtime) (area : Mem) (urb : OutUrb)
    (c : Chip) : Bool × Bool × Chip × Mem :=
  if !running then (false, false, c, urb.transfer_buffer)
  else
    let (crossed, c, data) := babyfacePlaybackCopy w rt area
      (urb.transfer_buffer_length / c.frame_bytes) c urb.transfer_buffer
    (crossed, true, c, data)

/-- The URBs that complete one after the other while a playback substream runs, each with the ring as
the application has it then: what each of them reports and holds. -/
def playbackRun (w : ℕ) (rt : Runtime) : List (Mem × OutUrb) → Chip → List (Bool × Mem) × Chip
  | [], c => ([], c)
  | (area, urb) :: urbs, c =>
    let (crossed, _, c, data) := babyfacePlaybackUrb w true rt area urb c
    let (rest, c) := playbackRun w rt urbs c
    ((crossed, data) :: rest, c)

/-! ## The counters over a run -/

/-- The counters after `total` frames since START. -/
structure Counted (w : ℕ) (rt : Runtime) (d : Dir) (total : ℕ) (c : Chip) : Prop where
  hw_ptr : c.hw_ptr d = total % 2 ^ w
  prev_period : c.prev_period d = c.hw_ptr d / rt.period_size

section Counters

variable {w : ℕ} {rt : Runtime} {d : Dir} {total : ℕ} {c : Chip}

/-- After a reset no frame is counted. -/
theorem resetPtr_counted (w : ℕ) (rt : Runtime) (d : Dir) (c : Chip) : Counted w rt d 0 (resetPtr d c) where
  hw_ptr := by simp [resetPtr]
  prev_period := by simp [resetPtr]

/-- The word of the pointer is below its range. -/
theorem Counted.pointer_eq (h : Counted w rt d total c) :
    babyfacePcmPointer rt d c = total % 2 ^ w % rt.buffer_size := by
  rw [babyfacePcmPointer, h.hw_ptr]

/-- A URB moves the counters on by its frames, and reports when their period is a new one. -/
theorem advance_spec (h : Counted w rt d total c) (n : ℕ) :
    Counted w rt d (total + n) (advance w rt d n c).2 ∧
      ((advance w rt d n c).1 = true ↔
        (total + n) % 2 ^ w / rt.period_size ≠ total % 2 ^ w / rt.period_size) := by
  have hptr : (c.hw_ptr d + n) % 2 ^ w = (total + n) % 2 ^ w := by
    rw [h.hw_ptr, Nat.mod_add_mod]
  have hprev : c.prev_period d = total % 2 ^ w / rt.period_size := by
    rw [h.prev_period, h.hw_ptr]
  simp only [advance, Function.update_self, hptr, hprev]
  split
  · rename_i hne
    exact ⟨⟨by simp, by simp⟩, iff_of_true rfl hne⟩
  · rename_i heq
    refine ⟨⟨by simp, ?_⟩, iff_of_false Bool.false_ne_true heq⟩
    simpa [hprev] using (not_not.mp heq).symm

/-- A URB leaves the frame size alone. -/
@[simp] theorem advance_frame_bytes (n : ℕ) :
    (advance w rt d n c).2.frame_bytes = c.frame_bytes := by
  unfold advance
  dsimp only
  split <;> rfl

/-- While the frames since START fit the counter, a URB reports that it crosses a period. -/
theorem advance_crosses (h : Counted w rt d total c) {n : ℕ} (hfit : total + n < 2 ^ w) :
    (advance w rt d n c).1 = crosses rt.period_size total n := by
  rw [Bool.eq_iff_iff, (advance_spec h n).2, Nat.mod_eq_of_lt hfit,
    Nat.mod_eq_of_lt (by omega : total < 2 ^ w), crosses, decide_eq_true_iff]

end Counters

/-! ## Capture is exact -/

/-- A frame of an IN URB, by its bytes. -/
def InUrb.frame (urb : InUrb) (frame_bytes f : ℕ) : List U8 :=
  (List.range frame_bytes).map fun i => urb.transfer_buffer (f * frame_bytes + i)

/-- The whole frames of an IN URB. -/
def InUrb.frames (urb : InUrb) (frame_bytes : ℕ) : List (List U8) :=
  (List.range (urb.actual_length / frame_bytes)).map (urb.frame frame_bytes)

/-- A frame in its slot of the ring: channel for word, and zero in the channels past the words. -/
def storeSlot (rt : Runtime) (frame_bytes slot : ℕ) (frame : List U8) (area : Mem) : Mem := fun a =>
  let dst := framesToBytes rt slot
  if dst ≤ a ∧ a < dst + rt.channels * 4 then
    if a - dst < frame_bytes / 4 * 4 then frame.getD (a - dst) 0 else 0
  else area a

/-- The slots of a ring do not overlap, and lie within its bytes. -/
theorem framesToBytes_lt (rt : Runtime) {s t : ℕ} (h : s < t) :
    framesToBytes rt s + rt.channels * 4 ≤ framesToBytes rt t := by
  unfold framesToBytes
  calc s * (rt.channels * 4) + rt.channels * 4 = (s + 1) * (rt.channels * 4) :=
        (Nat.succ_mul s _).symm
    _ ≤ t * (rt.channels * 4) := Nat.mul_le_mul_right _ h

/-- A store leaves alone what is outside its slot. -/
theorem storeSlot_out {rt : Runtime} {slot a : ℕ} (frame_bytes : ℕ) (frame : List U8) (area : Mem)
    (h : a < framesToBytes rt slot ∨ framesToBytes rt slot + rt.channels * 4 ≤ a) :
    storeSlot rt frame_bytes slot frame area a = area a := by
  unfold storeSlot
  dsimp only
  rw [if_neg (by omega)]

/-- A slot has the word of its channel, or silence past the frame. -/
theorem storeSlot_at {rt : Runtime} {slot i : ℕ} (frame_bytes : ℕ) (frame : List U8) (area : Mem)
    (h : i < rt.channels * 4) :
    storeSlot rt frame_bytes slot frame area (framesToBytes rt slot + i) =
      if i < frame_bytes / 4 * 4 then frame.getD i 0 else 0 := by
  unfold storeSlot
  dsimp only
  rw [if_pos (by omega), Nat.add_sub_cancel_left]

section CaptureFrame

variable {rt : Runtime} (frame_bytes : ℕ) (data : Mem) (f : ℕ) {pos : ℕ} (area : Mem)

/-- A captured frame is stored within its own bytes. -/
theorem captureFrame_out {a : ℕ}
    (h : a < framesToBytes rt pos ∨ framesToBytes rt pos + rt.channels * 4 ≤ a) :
    captureFrame rt frame_bytes data f pos area a = area a := by
  unfold captureFrame
  split
  · rw [memset_out _ _ (by omega), memcpy_out _ _ (by omega)]
  · rw [memcpy_out _ _ (by omega)]

/-- Each of its bytes is that of the URB. -/
theorem captureFrame_at {i : ℕ} (h : i < rt.channels * 4) :
    captureFrame rt frame_bytes data f pos area (framesToBytes rt pos + i) =
      if i < frame_bytes / 4 * 4 then data (f * frame_bytes + i) else 0 := by
  unfold captureFrame
  by_cases hword : i < frame_bytes / 4 * 4
  · rw [if_pos hword]
    split
    · rw [memset_out _ _ (by omega), memcpy_at _ _ _ (by omega)]
    · rw [memcpy_at _ _ _ (by omega)]
  · -- The channels past the words.
    have hpast : framesToBytes rt pos + i = framesToBytes rt pos +
        min rt.channels (frame_bytes / 4) * 4 + (i - min rt.channels (frame_bytes / 4) * 4) := by
      omega
    rw [if_neg hword, if_pos (by omega), hpast, memset_at _ _ _ (by omega)]

end CaptureFrame

/-- The copy of one frame is a store of it. -/
theorem captureFrame_eq (rt : Runtime) (frame_bytes : ℕ) (urb : InUrb) (f pos : ℕ) (area : Mem) :
    captureFrame rt frame_bytes urb.transfer_buffer f pos area =
      storeSlot rt frame_bytes pos (urb.frame frame_bytes f) area := by
  funext a
  by_cases hslot : framesToBytes rt pos ≤ a ∧ a < framesToBytes rt pos + rt.channels * 4
  · obtain ⟨i, rfl⟩ := Nat.exists_eq_add_of_le hslot.1
    have hi : i < rt.channels * 4 := by omega
    rw [captureFrame_at _ _ _ _ hi, storeSlot_at _ _ _ hi]
    split
    · have hlt : i < frame_bytes := by omega
      simp [InUrb.frame, List.getD_eq_getElem?_getD, List.getElem?_range hlt]
    · rfl
  · rw [captureFrame_out _ _ _ _ (by omega), storeSlot_out _ _ _ (by omega)]

/-- What a run of IN URBs since START leaves: the frames in the ring in their order, one slot after
the other; a channel of one of the last frames; everything past the ring; and the pointer and the
reports. -/
structure CaptureExact (rt : Runtime) (frame_bytes : ℕ) (urbs : List InUrb) (area : Mem)
    (reports : List Bool) (c' : Chip) (area' : Mem) : Prop where
  in_order : area' = storeFrom (storeSlot rt frame_bytes) rt.buffer_size 0
    (urbs.flatMap (·.frames frame_bytes)) area
  slot : ∀ k frame, (urbs.flatMap (·.frames frame_bytes))[k]? = some frame →
    (urbs.flatMap (·.frames frame_bytes)).length ≤ k + rt.buffer_size →
    ∀ ch < rt.channels, ∀ j < 4,
      area' (framesToBytes rt (k % rt.buffer_size) + ch * 4 + j) =
        if ch < frame_bytes / 4 then frame.getD (ch * 4 + j) 0 else 0
  outside : ∀ a, framesToBytes rt rt.buffer_size ≤ a → area' a = area a
  pointer : babyfacePcmPointer rt .capture c' =
    (urbs.map (·.actual_length / frame_bytes)).sum % rt.buffer_size
  reported : reports = crossings rt.period_size 0 (urbs.map (·.actual_length / frame_bytes))
  periods : (∀ urb ∈ urbs, urb.actual_length / frame_bytes ≤ rt.period_size) →
    reports.count true = (urbs.map (·.actual_length / frame_bytes)).sum / rt.period_size

/-- An IN URB while the frames since START fit the counter. -/
theorem babyfaceCaptureUrb_spec {w : ℕ} {rt : Runtime} {c : Chip} {total : ℕ}
    (hbuf : 0 < rt.buffer_size) (h : Counted w rt .capture total c) (urb : InUrb) (area : Mem)
    (hfit : total + urb.actual_length / c.frame_bytes < 2 ^ w) :
    ∃ c', babyfaceCaptureUrb w true rt urb c area =
        (crosses rt.period_size total (urb.actual_length / c.frame_bytes), c',
          storeFrom (storeSlot rt c.frame_bytes) rt.buffer_size total (urb.frames c.frame_bytes)
            area) ∧
      Counted w rt .capture (total + urb.actual_length / c.frame_bytes) c' ∧
      c'.frame_bytes = c.frame_bytes := by
  -- A URB of less than one frame is skipped before the lock.
  by_cases hzero : urb.actual_length / c.frame_bytes = 0
  · refine ⟨c, ?_, by rwa [hzero], rfl⟩
    simp [babyfaceCaptureUrb, hzero, crosses, InUrb.frames, storeFrom]
  · refine ⟨(advance w rt .capture (urb.actual_length / c.frame_bytes) c).2, ?_,
      (advance_spec h _).1, advance_frame_bytes _⟩
    -- The count fits the counter, so the position is the total itself and not its remainder.
    have hpos : c.hw_ptr .capture = total := by
      rw [h.hw_ptr, Nat.mod_eq_of_lt (lt_of_le_of_lt (Nat.le_add_right _ _) hfit)]
    -- The loop over the frames is the storing of the list of frames, from the slot of the total on.
    have hloop := loop_eq_storeFrom hbuf (urb.frame c.frame_bytes)
      (captureFrame_eq rt c.frame_bytes urb) (urb.actual_length / c.frame_bytes) 0 total area
    rw [← List.range_eq_range'] at hloop
    simp only [babyfaceCaptureUrb, Bool.not_true, Bool.false_eq_true, if_false, if_neg hzero,
      babyfaceCaptureCopy, hpos, hloop, advance_crosses h hfit, InUrb.frames]

/-- A run of IN URBs while the frames since START fit the counter. -/
theorem captureRun_spec {w : ℕ} {rt : Runtime} (hbuf : 0 < rt.buffer_size) (frame_bytes : ℕ) :
    ∀ (urbs : List InUrb) {c : Chip} {total : ℕ} (area : Mem), Counted w rt .capture total c →
      c.frame_bytes = frame_bytes →
      total + (urbs.map (·.actual_length / frame_bytes)).sum < 2 ^ w →
      ∃ c', captureRun w rt urbs c area =
          (crossings rt.period_size total (urbs.map (·.actual_length / frame_bytes)), c',
            storeFrom (storeSlot rt frame_bytes) rt.buffer_size total
              (urbs.flatMap (·.frames frame_bytes)) area) ∧
        Counted w rt .capture (total + (urbs.map (·.actual_length / frame_bytes)).sum) c'
  | [], c, _, _, h, _, _ => ⟨c, rfl, h⟩
  | urb :: urbs, c, total, area, h, hfb, hfit => by
    subst hfb
    rw [List.map_cons, List.sum_cons, ← Nat.add_assoc] at hfit
    -- The first URB advances the total for the rest of the run.
    obtain ⟨c₁, hurb, hc₁, hfb⟩ := babyfaceCaptureUrb_spec hbuf h urb area (by omega)
    obtain ⟨c₂, hrun, hc₂⟩ := captureRun_spec hbuf _ urbs (storeFrom (storeSlot rt c.frame_bytes)
      rt.buffer_size total (urb.frames c.frame_bytes) area) hc₁ hfb hfit
    have hlen : (urb.frames c.frame_bytes).length = urb.actual_length / c.frame_bytes := by
      simp [InUrb.frames]
    refine ⟨c₂, ?_, by rwa [List.map_cons, List.sum_cons, ← Nat.add_assoc]⟩
    rw [List.flatMap_cons, storeFrom_append, hlen]
    simp only [captureRun, hurb, hrun, List.map_cons, crossings]

/-- Capture is exact while the frames since START fit the counter. -/
theorem captureRun_exact {w : ℕ} {rt : Runtime} (hbuf : 0 < rt.buffer_size)
    (hperiod : 0 < rt.period_size) (c : Chip) (urbs : List InUrb) (area : Mem)
    (hfit : (urbs.map (·.actual_length / c.frame_bytes)).sum < 2 ^ w) :
    ∃ reports c' area', captureRun w rt urbs (resetPtr .capture c) area = (reports, c', area') ∧
      CaptureExact rt c.frame_bytes urbs area reports c' area' := by
  obtain ⟨c', hrun, hc'⟩ := captureRun_spec hbuf c.frame_bytes urbs area
    (resetPtr_counted w rt .capture c) rfl (by rwa [Nat.zero_add])
  rw [Nat.zero_add] at hc'
  refine ⟨_, c', _, hrun, rfl, ?_, ?_, ?_, rfl, ?_⟩
  -- Each frame that is not overwritten by a later lap is found in its slot.
  · intro k frame hk hlast ch hch j hj
    obtain ⟨hlt, hframe⟩ := List.getElem?_eq_some_iff.mp hk
    have hmul : ch * 4 + 4 ≤ rt.channels * 4 := by omega
    refine storeFrom_slot hlt hlast area ?_ ?_
    · -- The other slots lie below or above.
      intro s x m hs
      apply storeSlot_out
      rw [Nat.zero_add] at hs
      rcases Nat.lt_or_gt_of_ne hs with hbelow | habove
      · have hle := framesToBytes_lt rt hbelow
        omega
      · have hle := framesToBytes_lt rt habove
        omega
    -- Below the URB's channels the slot has the word of the frame, above it is padding.
    · intro m
      have hword : ch * 4 + j < c.frame_bytes / 4 * 4 ↔ ch < c.frame_bytes / 4 := by omega
      rw [hframe, Nat.zero_add, Nat.add_assoc, storeSlot_at _ _ _ (by omega)]
      simp only [hword]
  -- A slot ends within the area, and what lies behind it is left alone.
  · intro a ha
    refine storeFrom_out hbuf ?_ _ 0 area
    intro s x m hs
    have hle := framesToBytes_lt rt hs
    exact storeSlot_out _ x m (Or.inr (hle.trans ha))
  -- The pointer is the total, which fits the counter.
  · rw [hc'.pointer_eq, Nat.mod_eq_of_lt hfit]
  -- URBs of at most a period cross at most one boundary each, so the reports count the periods.
  · intro hle
    have hcount := count_crossings hperiod (urbs.map (·.actual_length / c.frame_bytes)) 0
      (by simpa using hle)
    rwa [Nat.zero_div, Nat.zero_add, Nat.zero_add] at hcount

/-! ## Playback is exact -/

/-- The frames that an OUT URB carries. -/
def OutUrb.count (urb : OutUrb) (frame_bytes : ℕ) : ℕ := urb.transfer_buffer_length / frame_bytes

/-- What an OUT URB holds once it was fed the frames from the number `total` on: channel for word from
the slots of their numbers, zero in the words past the channels, and its own bytes past the
frames. -/
structure Fed (rt : Runtime) (frame_bytes total : ℕ) (area : Mem) (urb : OutUrb) (data : Mem) :
    Prop where
  word : ∀ f < urb.count frame_bytes, ∀ word < frame_bytes / 4, ∀ j < 4,
    data (f * frame_bytes + word * 4 + j) =
      if word < rt.channels then
        area (framesToBytes rt ((total + f) % rt.buffer_size) + word * 4 + j)
      else 0
  outside : ∀ a, urb.count frame_bytes * frame_bytes ≤ a → data a = urb.transfer_buffer a

/-- What a run of OUT URBs since START sends, where each URB comes with the ring as it was then: the
frames of the ring in their order, and the pointer and the reports. -/
structure PlaybackExact (rt : Runtime) (frame_bytes : ℕ) (urbs : List (Mem × OutUrb))
    (sent : List (Bool × Mem)) (c' : Chip) : Prop where
  fed : ∀ i area urb, urbs[i]? = some (area, urb) →
    ∃ crossed data, sent[i]? = some (crossed, data) ∧
      Fed rt frame_bytes ((urbs.take i).map (·.2.count frame_bytes)).sum area urb data
  pointer : babyfacePcmPointer rt .playback c' =
    (urbs.map (·.2.count frame_bytes)).sum % rt.buffer_size
  reported : sent.map Prod.fst = crossings rt.period_size 0 (urbs.map (·.2.count frame_bytes))
  periods : (∀ urb ∈ urbs, urb.2.count frame_bytes ≤ rt.period_size) →
    (sent.map Prod.fst).count true =
      (urbs.map (·.2.count frame_bytes)).sum / rt.period_size

/-- One frame of an OUT URB, in whole words. -/
theorem playbackFrame_at (rt : Runtime) {frame_bytes : ℕ} (hwords : frame_bytes / 4 * 4 = frame_bytes)
    (area : Mem) (f pos : ℕ) (data : Mem) (i : ℕ) (hi : i < frame_bytes) :
    playbackFrame rt frame_bytes area f pos data (f * frame_bytes + i) =
      if i < rt.channels * 4 then area (framesToBytes rt pos + i) else 0 := by
  unfold playbackFrame
  by_cases hchan : i < rt.channels * 4
  · rw [if_pos hchan, memset_out _ _ (by omega), memcpy_at _ _ _ (by omega)]
  · have hpast : f * frame_bytes + i = f * frame_bytes +
        min rt.channels (frame_bytes / 4) * 4 + (i - min rt.channels (frame_bytes / 4) * 4) := by
      omega
    rw [if_neg hchan, hpast, memset_at _ _ _ (by omega)]

/-- A frame that is played is stored within its own bytes of the URB. -/
theorem playbackFrame_out {rt : Runtime} {frame_bytes : ℕ} (area : Mem) (f pos : ℕ) (data : Mem)
    (a : ℕ) (ha : a < f * frame_bytes ∨ (f + 1) * frame_bytes ≤ a) :
    playbackFrame rt frame_bytes area f pos data a = data a := by
  have hle : frame_bytes / 4 * 4 ≤ frame_bytes := Nat.div_mul_le_self frame_bytes 4
  rw [Nat.succ_mul] at ha
  unfold playbackFrame
  rw [memset_out _ _ (by omega), memcpy_out _ _ (by omega)]

/-- An OUT URB of a substream that runs is fed the frames from the number `total` on, when the
counter stands on the slot of that number. -/
theorem babyfacePlaybackUrb_fed {w : ℕ} {rt : Runtime} {c : Chip} {total : ℕ}
    (hbuf : 0 < rt.buffer_size) (hwords : c.frame_bytes / 4 * 4 = c.frame_bytes)
    (hpos : c.hw_ptr .playback % rt.buffer_size = total % rt.buffer_size) (area : Mem)
    (urb : OutUrb) :
    ∃ data, babyfacePlaybackUrb w true rt area urb c =
        ((advance w rt .playback (urb.count c.frame_bytes) c).1, true,
          (advance w rt .playback (urb.count c.frame_bytes) c).2, data) ∧
      Fed rt c.frame_bytes total area urb data := by
  -- Each frame of the loop is put at its place, and no later one reaches it.
  obtain ⟨hput, hout⟩ := loop_at hbuf (playbackFrame_at rt hwords area)
    (playbackFrame_out area) (urb.count c.frame_bytes) 0 total urb.transfer_buffer
  refine ⟨loop (playbackFrame rt c.frame_bytes area) rt.buffer_size (urb.count c.frame_bytes) 0
    (total % rt.buffer_size) urb.transfer_buffer, ?_, ?_, ?_⟩
  · simp only [babyfacePlaybackUrb, Bool.not_true, Bool.false_eq_true, if_false,
      babyfacePlaybackCopy, hpos]
    rfl
  -- By words: each word of a frame is that of the ring's slot, or zero above the substream's channels.
  · intro f hf word hword j hj
    have hbyte := hput f hf (word * 4 + j) (by omega)
    have hchan : word * 4 + j < rt.channels * 4 ↔ word < rt.channels := by omega
    simpa only [Nat.zero_add, hchan, ← Nat.add_assoc] using hbyte
  -- Behind the frames of the URB nothing is written.
  · intro a ha
    exact hout a (Or.inr (by rwa [Nat.zero_add]))

/-- An OUT URB while the frames since START fit the counter. -/
theorem babyfacePlaybackUrb_spec {w : ℕ} {rt : Runtime} {c : Chip} {total : ℕ}
    (hbuf : 0 < rt.buffer_size) (hwords : c.frame_bytes / 4 * 4 = c.frame_bytes)
    (h : Counted w rt .playback total c) (area : Mem) (urb : OutUrb)
    (hfit : total + urb.count c.frame_bytes < 2 ^ w) :
    ∃ c' data, babyfacePlaybackUrb w true rt area urb c =
        (crosses rt.period_size total (urb.count c.frame_bytes), true, c', data) ∧
      Fed rt c.frame_bytes total area urb data ∧
      Counted w rt .playback (total + urb.count c.frame_bytes) c' ∧
      c'.frame_bytes = c.frame_bytes := by
  have hpos : c.hw_ptr .playback = total := by
    rw [h.hw_ptr, Nat.mod_eq_of_lt (lt_of_le_of_lt (Nat.le_add_right _ _) hfit)]
  obtain ⟨data, hrun, hfed⟩ := babyfacePlaybackUrb_fed (w := w) hbuf hwords
    (congrArg (· % rt.buffer_size) hpos) area urb
  rw [advance_crosses h hfit] at hrun
  exact ⟨_, data, hrun, hfed, (advance_spec h _).1, advance_frame_bytes _⟩

/-- A run of OUT URBs while the frames since START fit the counter. -/
theorem playbackRun_spec {w : ℕ} {rt : Runtime} (hbuf : 0 < rt.buffer_size) {frame_bytes : ℕ}
    (hwords : frame_bytes / 4 * 4 = frame_bytes) :
    ∀ (urbs : List (Mem × OutUrb)) {c : Chip} {total : ℕ}, Counted w rt .playback total c →
      c.frame_bytes = frame_bytes →
      total + (urbs.map (·.2.count frame_bytes)).sum < 2 ^ w →
      ∃ sent c', playbackRun w rt urbs c = (sent, c') ∧
        (∀ i area urb, urbs[i]? = some (area, urb) →
          ∃ crossed data, sent[i]? = some (crossed, data) ∧
            Fed rt frame_bytes (total + ((urbs.take i).map (·.2.count frame_bytes)).sum) area urb
              data) ∧
        sent.map Prod.fst = crossings rt.period_size total (urbs.map (·.2.count frame_bytes)) ∧
        Counted w rt .playback (total + (urbs.map (·.2.count frame_bytes)).sum) c'
  | [], c, _, h, _, _ => ⟨[], c, rfl, fun i area urb hi => by simp at hi, rfl, h⟩
  | (area, urb) :: urbs, c, total, h, hfb, hfit => by
    subst hfb
    rw [List.map_cons, List.sum_cons, ← Nat.add_assoc] at hfit
    -- The first URB is fed the frames from the total on, the rest from what it took.
    obtain ⟨c₁, data, hurb, hfed, hc₁, hfb⟩ := babyfacePlaybackUrb_spec hbuf hwords h area urb
      (lt_of_le_of_lt (Nat.le_add_right _ _) hfit)
    obtain ⟨sent, c₂, hrun, hall, hreports, hc₂⟩ := playbackRun_spec hbuf hwords urbs hc₁ hfb hfit
    refine ⟨(crosses rt.period_size total (urb.count c.frame_bytes), data) :: sent, c₂, ?_, ?_, ?_,
      by rwa [List.map_cons, List.sum_cons, ← Nat.add_assoc]⟩
    · simp only [playbackRun, hurb, hrun]
    -- The first URB that is sent, or one of the rest.
    · intro i area' urb' hi
      rcases i with _ | i
      · obtain ⟨rfl, rfl⟩ : area = area' ∧ urb = urb' := by simpa using hi
        exact ⟨_, data, rfl, hfed⟩
      · obtain ⟨crossed, data', hsent, hfed'⟩ := hall i area' urb' (by simpa using hi)
        refine ⟨crossed, data', by simpa using hsent, ?_⟩
        rwa [List.take_succ_cons, List.map_cons, List.sum_cons, ← Nat.add_assoc]
    · rw [List.map_cons, List.map_cons, crossings, hreports]

/-- Playback is exact while the frames since START fit the counter. -/
theorem playbackRun_exact {w : ℕ} {rt : Runtime} (hbuf : 0 < rt.buffer_size)
    (hperiod : 0 < rt.period_size) {c : Chip} (hwords : c.frame_bytes / 4 * 4 = c.frame_bytes)
    (urbs : List (Mem × OutUrb))
    (hfit : (urbs.map (·.2.count c.frame_bytes)).sum < 2 ^ w) :
    ∃ sent c', playbackRun w rt urbs (resetPtr .playback c) = (sent, c') ∧
      PlaybackExact rt c.frame_bytes urbs sent c' := by
  obtain ⟨sent, c', hrun, hfed, hreports, hc'⟩ := playbackRun_spec hbuf hwords urbs
    (resetPtr_counted w rt .playback c) rfl (by rwa [Nat.zero_add])
  simp only [Nat.zero_add] at hfed hc'
  refine ⟨sent, c', hrun, hfed, ?_, hreports, ?_⟩
  · rw [hc'.pointer_eq, Nat.mod_eq_of_lt hfit]
  -- As for capture: URBs of at most a period cross at most one boundary each.
  · intro hle
    have hshort : ∀ n ∈ urbs.map (·.2.count c.frame_bytes), n ≤ rt.period_size := by
      intro n hn
      obtain ⟨urb, hurb, rfl⟩ := List.mem_map.mp hn
      exact hle urb hurb
    have hcount := count_crossings hperiod (urbs.map (·.2.count c.frame_bytes)) 0 hshort
    rw [hreports]
    rwa [Nat.zero_div, Nat.zero_add, Nat.zero_add] at hcount

/-- The ring copy is exact over whole sessions: as long as the frames since START fit the counter, frame
number `k` of a run of URBs goes to, or comes from, slot `k` modulo the buffer size, in order and once,
channel for word; nothing else is touched; and the pointer and the period reports follow the
frames. -/
theorem ring_copy_exact (w : ℕ) {rt : Runtime} (hbuf : 0 < rt.buffer_size)
    (hperiod : 0 < rt.period_size) {c : Chip}
    (hframe : ∃ r ∈ bfRates, c.frame_bytes = r.frame_bytes) :
    (∀ (urbs : List InUrb) (area : Mem),
      (urbs.map (·.actual_length / c.frame_bytes)).sum < 2 ^ w →
      ∃ reports c' area', captureRun w rt urbs (resetPtr .capture c) area = (reports, c', area') ∧
        CaptureExact rt c.frame_bytes urbs area reports c' area') ∧
    ∀ urbs : List (Mem × OutUrb), (urbs.map (·.2.count c.frame_bytes)).sum < 2 ^ w →
      ∃ sent c', playbackRun w rt urbs (resetPtr .playback c) = (sent, c') ∧
        PlaybackExact rt c.frame_bytes urbs sent c' := by
  have hrates : ∀ r ∈ bfRates, r.frame_bytes / 4 * 4 = r.frame_bytes := by decide
  have hwords : c.frame_bytes / 4 * 4 = c.frame_bytes := by
    obtain ⟨r, hr, hfb⟩ := hframe
    rw [hfb, hrates r hr]
  exact ⟨fun urbs area hfit => captureRun_exact hbuf hperiod c urbs area hfit,
    fun urbs hfit => playbackRun_exact hbuf hperiod hwords urbs hfit⟩

/-- A ring of eight frames of two channels, over two URBs of one byte value each. -/
theorem ring_copy_exact_default :
    let rt : Runtime := ⟨48000, 2, 4, 8⟩
    let urbs : List InUrb := [⟨4 * 56 + 3, fun _ => 7⟩, ⟨4 * 56, fun _ => 9⟩]
    ∃ reports c' area', captureRun 32 rt urbs (resetPtr .capture (probeChip {})) (fun _ => 0) =
        (reports, c', area') ∧
      reports = [true, true] ∧ babyfacePcmPointer rt .capture c' = 0 ∧ area' 0 = 7 ∧
      area' 64 = 0 := by
  intro rt urbs
  obtain ⟨reports, c', area', hrun, h⟩ :=
    (@ring_copy_exact 32 rt (by decide) (by decide) (probeChip {})
      ⟨⟨48000, BF_ALT_1, 56, 8⟩, by decide, by decide⟩).1 urbs (fun _ => 0) (by decide)
  refine ⟨reports, c', area', hrun, ?_, ?_, ?_, h.outside 64 (by decide)⟩
  · rw [h.reported]
    decide
  · rw [h.pointer]
    decide
  · exact h.slot 0 _ rfl (by decide) 0 (by decide) 0 (by decide)

/-! ## The counters wrap -/

/-- The URBs of `ns` frames, one after the other. -/
def advances (w : ℕ) (rt : Runtime) (d : Dir) (ns : List ℕ) (c : Chip) : Chip :=
  ns.foldl (fun c n => (advance w rt d n c).2) c

/-- The frames that URBs move are counted up. -/
theorem advances_counted {w : ℕ} {rt : Runtime} {d : Dir} :
    ∀ (ns : List ℕ) {total : ℕ} {c : Chip}, Counted w rt d total c →
      Counted w rt d (total + ns.sum) (advances w rt d ns c)
  | [], _, _, h => h
  | n :: ns, _, _, h => by
    rw [List.sum_cons, ← Nat.add_assoc]
    exact advances_counted ns (advance_spec h n).1

/-- Every URB of a run since START moves the ring position by its frames, and reports exactly the
periods that the frames since START cross. -/
def PointerExact (w : ℕ) (rt : Runtime) (d : Dir) (c : Chip) (ns : List ℕ) : Prop :=
  ∀ pre n post, ns = pre ++ n :: post →
    let c₀ := advances w rt d pre (resetPtr d c)
    let c₁ := (advance w rt d n c₀).2
    babyfacePcmPointer rt d c₁ = (babyfacePcmPointer rt d c₀ + n) % rt.buffer_size ∧
      ((advance w rt d n c₀).1 = true ↔ ∃ m, rt.period_size ∣ m ∧ pre.sum < m ∧ m ≤ pre.sum + n)

section Wrap

variable {w : ℕ} {rt : Runtime} {d : Dir} {c : Chip} {ns : List ℕ}

/-- What a URB does to the pointer, and what it reports, in the true count of the frames. -/
theorem pointer_step (w : ℕ) (rt : Runtime) (d : Dir) (c : Chip) (pre : List ℕ) (n : ℕ) :
    let c₀ := advances w rt d pre (resetPtr d c)
    babyfacePcmPointer rt d c₀ = pre.sum % 2 ^ w % rt.buffer_size ∧
      babyfacePcmPointer rt d (advance w rt d n c₀).2 = (pre.sum + n) % 2 ^ w % rt.buffer_size ∧
      ((advance w rt d n c₀).1 = true ↔
        (pre.sum + n) % 2 ^ w / rt.period_size ≠ pre.sum % 2 ^ w / rt.period_size) := by
  have h := advances_counted pre (resetPtr_counted w rt d c)
  rw [Nat.zero_add] at h
  obtain ⟨hnext, hreport⟩ := advance_spec h n
  exact ⟨h.pointer_eq, hnext.pointer_eq, hreport⟩

/-- The pointer is exact in a run whose frames fit the counter. -/
theorem pointerExact_of_fit (hperiod : 0 < rt.period_size) (hfit : ns.sum < 2 ^ w) :
    PointerExact w rt d c ns := by
  rintro pre n post rfl
  rw [List.sum_append, List.sum_cons] at hfit
  obtain ⟨h₀, h₁, hreport⟩ := pointer_step w rt d c pre n
  have hlt : pre.sum + n < 2 ^ w := by omega
  have hlt₀ : pre.sum < 2 ^ w := by omega
  rw [Nat.mod_eq_of_lt hlt] at h₁
  rw [Nat.mod_eq_of_lt hlt₀] at h₀
  rw [Nat.mod_eq_of_lt hlt, Nat.mod_eq_of_lt hlt₀] at hreport
  dsimp only
  refine ⟨by rw [h₀, h₁, Nat.mod_add_mod], hreport.trans ?_⟩
  rw [← crosses_iff hperiod, crosses, decide_eq_true_iff]

/-- The pointer is exact in every run of short URBs, when both sizes divide the counter's range. -/
theorem pointerExact_of_dvd (hperiod : 0 < rt.period_size) (hbuf : rt.buffer_size ∣ 2 ^ w)
    (hdvd : rt.period_size ∣ 2 ^ w) (hshort : ∀ n ∈ ns, n + rt.period_size ≤ 2 ^ w) :
    PointerExact w rt d c ns := by
  rintro pre n post rfl
  obtain ⟨h₀, h₁, hreport⟩ := pointer_step w rt d c pre n
  rw [Nat.mod_mod_of_dvd _ hbuf] at h₀ h₁
  dsimp only
  refine ⟨by rw [h₀, h₁, Nat.mod_add_mod], hreport.trans ?_⟩
  rw [wrapped_crosses hperiod hdvd (hshort n (by simp)), crosses_iff hperiod]

/-- The URB of one frame with which the counter wraps is only handled right when both sizes divide the
counter's range. -/
theorem dvd_of_pointerExact (hperiod : 0 < rt.period_size) (hlt : rt.period_size < 2 ^ w)
    (h : PointerExact w rt d c (List.replicate (2 ^ w) 1)) :
    rt.buffer_size ∣ 2 ^ w ∧ rt.period_size ∣ 2 ^ w := by
  -- The last of the URBs of one frame each wraps the counter.
  have hpos : 2 ^ w = 2 ^ w - 1 + 1 := by omega
  obtain ⟨h₀, h₁, hreport⟩ :=
    pointer_step w rt d c (List.replicate (2 ^ w - 1) 1) 1
  obtain ⟨hpointer, hcross⟩ := h (List.replicate (2 ^ w - 1) 1) 1 [] (by
    rw [← List.replicate_succ', ← hpos])
  -- Before it the counter stands on its last value, after it on zero.
  have hsum : (List.replicate (2 ^ w - 1) 1).sum = 2 ^ w - 1 := by simp
  rw [hsum] at h₀ h₁ hreport hcross
  rw [← hpos] at h₁ hreport hcross
  rw [Nat.mod_self, Nat.zero_mod] at h₁
  rw [Nat.mod_self, Nat.zero_div, Nat.mod_eq_of_lt (by omega : 2 ^ w - 1 < 2 ^ w)] at hreport
  constructor
  -- The pointer must then be zero as well, so the buffer divides the range.
  · rw [h₀, h₁, Nat.mod_eq_of_lt (by omega : 2 ^ w - 1 < 2 ^ w), Nat.mod_add_mod, ← hpos]
      at hpointer
    exact Nat.dvd_of_mod_eq_zero hpointer.symm
  · -- The wrap is always reported, so a boundary must lie on it.
    have hbefore : 1 ≤ (2 ^ w - 1) / rt.period_size :=
      (Nat.one_le_div_iff hperiod).mpr (by omega)
    obtain ⟨m, hm, hgt, hle⟩ := hcross.mp (hreport.mpr (by omega))
    obtain rfl : m = 2 ^ w := by omega
    exact hm

end Wrap

/-- The pointer survives the wrap of `hw_ptr` in every run of URBs exactly when the buffer and period
sizes divide the counter's range; before the wrap it is exact for every size. -/
theorem pointer_wraps_iff {w : ℕ} (hw : w = 32 ∨ w = 64) {c : Chip} (hc : Clamped c.toStream) {rt : Runtime}
    (hrt : Admitted c rt) (d : Dir) :
    ((∀ ns : List ℕ, (∀ n ∈ ns, n ≤ c.frames_per_urb) → PointerExact w rt d c ns) ↔
      rt.buffer_size ∣ 2 ^ w ∧ rt.period_size ∣ 2 ^ w) ∧
    ∀ ns : List ℕ, ns.sum < 2 ^ w → PointerExact w rt d c ns := by
  have hmin := hc.urb_frames_min.1
  have hperiod := hrt.period_size
  have hpos : 0 < rt.period_size := by omega
  have hrange : 2 ^ 32 ≤ 2 ^ w := by rcases hw with rfl | rfl <;> omega
  have hfpu := hc.frames_per_urb
  refine ⟨⟨fun h => ?_, fun h ns hns => ?_⟩, fun ns hfit => pointerExact_of_fit hpos hfit⟩
  · refine dvd_of_pointerExact hpos (by omega) (h _ fun n hn => ?_)
    rw [List.eq_of_mem_replicate hn]
    omega
  · refine pointerExact_of_dvd hpos h.1 h.2 fun n hn => ?_
    have hle := hns n hn
    omega

/-- With periods of 256 frames the pointer is exact in a run twice as long as the range of a 32-bit
counter. -/
theorem pointer_wraps_iff_pow_two :
    PointerExact 32 ⟨48000, 2, 256, 1024⟩ .playback (probeChip {}) (List.replicate (2 ^ 25) 256) := by
  have hrt : Admitted (probeChip {}) ⟨48000, 2, 256, 1024⟩ :=
    ⟨⟨⟨48000, BF_ALT_1, 56, 8⟩, by decide, rfl⟩, by decide, by decide, by decide, by decide,
      by decide⟩
  refine (pointer_wraps_iff (Or.inl rfl) (probeChip_clamped {}) hrt .playback).1.mpr
    ⟨by norm_num, by norm_num⟩ _ fun n hn => ?_
  rw [List.eq_of_mem_replicate hn]
  decide

/-- With two periods of 768 frames it is lost with the URB that wraps a 32-bit counter. -/
theorem pointer_lost_at_wrap :
    Admitted (probeChip {}) ⟨48000, 2, 768, 1536⟩ ∧
      bfUrbFrames 0 (probeChip {}) ⟨48000, BF_ALT_1, 56, 8⟩ 768 = 256 ∧
      ¬ PointerExact 32 ⟨48000, 2, 768, 1536⟩ .playback (probeChip {})
        (List.replicate (2 ^ 24) 256) := by
  refine ⟨⟨⟨⟨48000, BF_ALT_1, 56, 8⟩, by decide, rfl⟩, by decide, by decide, by decide, by decide,
    by decide⟩, by decide, fun h => ?_⟩
  obtain ⟨hbefore, hafter, _⟩ := pointer_step 32 ⟨48000, 2, 768, 1536⟩ .playback
    (probeChip {}) (List.replicate (2 ^ 24 - 1) 256) 256
  have hsplit : 2 ^ 24 = 2 ^ 24 - 1 + 1 := by norm_num
  obtain ⟨hpointer, _⟩ := h (List.replicate (2 ^ 24 - 1) 256) 256 [] (by
    rw [← List.replicate_succ', ← hsplit])
  have hsum : ∀ k, (List.replicate k 256).sum = k * 256 := fun k => by simp
  rw [hbefore, hafter, hsum] at hpointer
  exact absurd hpointer (by norm_num)

end BabyfacePro
