import BabyfacePro.Stream.Delay
import BabyfacePro.Stream.Faults
import Mathlib.Tactic.Ring

/-!
# The round trip that both delays make up

An application compensates a recording with the sum of the two delays that the pointers report. Each of
them moves with the time since the last IN URB, one up and one down, so the sum does not depend on when
it is read: `round_trip_steady` says so for a whole session, in which any handler may take a step at any
time. It changes only when an OUT URB leaves the queue for good, by the frames of that URB.
-/

namespace BabyfacePro

/-- The sum of the delays of both directions, at the same time. -/
def roundTrip (rate : ℕ) (ns : ℤ) (c : Chip) : ℕ :=
  bfDelay .playback rate ns c + bfDelay .capture rate ns c

/-- What the delays depend on besides the queue. -/
def Chip.shape (c : Chip) : ℕ × ℕ × ℕ := (c.urbs_active, c.urb_frames, c.alt)

section Size

variable {c : Chip} (hurb : c.urb_frames ≤ 1024) (hurbs : c.urbs_active ≤ 16) (rate : ℕ) (ns : ℤ)

include hurb hurbs

/-- What pointer() reports of the playback, with its share of the time since the last IN URB. -/
theorem bfDelay_playback (hout : 2 ≤ c.out_inflight ∧ c.out_inflight ≤ c.urbs_active) :
    bfDelay .playback rate ns c + bfMoved rate c.urb_frames ns + c.urb_frames =
      c.out_inflight * c.urb_frames + (bfDeviceDelay c.alt).playback := by
  have hmoved := bfMoved_le rate ns c.urb_frames
  have hqueue : c.out_inflight * c.urb_frames ≤ 16 * 1024 := Nat.mul_le_mul (hout.2.trans hurbs) hurb
  have hdevice : (bfDeviceDelay c.alt).playback ≤ 136 := by
    unfold bfDeviceDelay
    split_ifs <;> decide
  -- Without its first URB the queue still holds one.
  obtain ⟨k, hk⟩ := Nat.exists_eq_add_of_le' hout.1
  have hsum : c.out_inflight * c.urb_frames = k * c.urb_frames + c.urb_frames + c.urb_frames := by
    rw [hk]
    ring
  have hframes : bfDelayFrames .playback rate ns c =
      (k * c.urb_frames + c.urb_frames : ℕ) - bfMoved rate c.urb_frames ns +
        (bfDeviceDelay c.alt).playback := by
    show (if c.out_inflight < 2 then (0 : ℤ) else _) = _
    rw [if_neg (by omega), hk]
    push_cast
    ring
  unfold bfDelay
  rw [hframes]
  omega

/-- The time since the last IN URB cancels. -/
theorem roundTrip_eq (hout : 2 ≤ c.out_inflight ∧ c.out_inflight ≤ c.urbs_active) :
    roundTrip rate ns c + c.urb_frames = c.out_inflight * c.urb_frames +
      (bfDeviceDelay c.alt).playback + (bfDeviceDelay c.alt).capture := by
  have hplay := bfDelay_playback hurb hurbs rate ns hout
  have hcap := bfDelay_capture rate ns c hurb
  unfold roundTrip
  omega

end Size

/-! ## A session -/

/-- The URBs change their number or size only where no session is. -/
theorem QueueStep.shape {s t : UrbQueue} (hst : QueueStep s t) (hinv : s.Inv) (hk : ¬ s.Killed) :
    t.chip.shape = s.chip.shape := by
  cases hst with
  | handler d i h =>
    rw [h.handled.chip]
    rfl
  | geometry hf hs => exact absurd ⟨hs, hinv.dead hs fun _ => by rw [hf]; rfl⟩ hk
  | _ => rfl

/-- While the session is not killed, it keeps its URBs. -/
theorem Unkilled.shape {s t : UrbQueue} (h : Unkilled s t) (hinv : s.Inv) (hk : ¬ s.Killed) :
    t.Inv ∧ ¬ t.Killed ∧ t.chip.shape = s.chip.shape := by
  induction h with
  | refl => exact ⟨hinv, hk, rfl⟩
  | step _ hst hnk ih =>
    obtain ⟨hinv', hk', hshape⟩ := ih
    exact ⟨hst.inv hinv', hnk, (hst.shape hinv' hk').trans hshape⟩

/-- Of the queue that is left, the round trip. -/
theorem UrbQueue.Inv.roundTrip_eq {s : UrbQueue} (h : s.Inv) (hrun : s.chip.streaming = true)
    (hurb : s.chip.urb_frames ≤ 1024) (hurbs : s.chip.urbs_active ≤ 16)
    (hleft : s.outGone + 2 ≤ s.chip.urbs_active) (rate : ℕ) (ns : ℤ) :
    roundTrip rate ns s.chip + (s.outGone + 1) * s.chip.urb_frames =
      s.chip.urbs_active * s.chip.urb_frames + (bfDeviceDelay s.chip.alt).playback +
        (bfDeviceDelay s.chip.alt).capture := by
  have hsum := h.inflight (.inl hrun)
  have htrip := BabyfacePro.roundTrip_eq hurb hurbs rate ns (by omega)
  have hprod : s.chip.urbs_active * s.chip.urb_frames =
      s.chip.out_inflight * s.chip.urb_frames + s.outGone * s.chip.urb_frames := by
    rw [← hsum]
    ring
  have hone : (s.outGone + 1) * s.chip.urb_frames = s.outGone * s.chip.urb_frames + s.chip.urb_frames := by
    ring
  omega

/-- In a session the round trip is the same at all times and for both pointers, whatever the handlers
are at: the frames of its OUT URBs but one, and what the device adds. Each OUT URB that has left the queue
takes its frames off. -/
theorem round_trip_steady {s t : UrbQueue} (h : QueueReachable s) (hrun : s.chip.streaming = true)
    (hg : Geometry s.chip.toStream) (hsame : Unkilled s t) (hrun' : t.chip.streaming = true)
    (hleft : t.outGone + 2 ≤ t.chip.urbs_active) (rate : ℕ) (ns : ℤ) :
    roundTrip rate ns t.chip + (t.outGone + 1) * s.chip.urb_frames =
      s.chip.urbs_active * s.chip.urb_frames + (bfDeviceDelay s.chip.alt).playback +
        (bfDeviceDelay s.chip.alt).capture := by
  have hk : ¬ s.Killed := fun hk => by simp [hk.1] at hrun
  obtain ⟨hinv, -, hshape⟩ := hsame.shape h.inv hk
  simp only [Chip.shape, Prod.mk.injEq] at hshape
  obtain ⟨hurbs, hurb, halt⟩ := hshape
  have htrip := hinv.roundTrip_eq hrun' (by rw [hurb]; exact hg.urb_frames_le)
    (by rw [hurbs]; exact hg.urbs_active.2.trans hg.clamped.nurbs.2) hleft rate ns
  rw [hurbs, hurb, halt] at htrip
  exact htrip

/-- A card with two URBs a direction, set up for playback. -/
def silent : UrbQueue :=
  { chip := { probeChip { nurbs := 2 } with stream_users := 1, stream_setup := fun d => d = .playback } }

/-- Its session. -/
def playing : UrbQueue :=
  { chip := { silent.chip with streaming := true, out_inflight := 2 }
    urb := fun _ i => if i < 2 then .queued else .idle }

/-- The run to `playing`. -/
theorem playing_reachable : QueueReachable playing := by
  refine ⟨silent, ⟨rfl, rfl, fun _ _ => rfl, by decide⟩, ?_⟩
  -- The stages of the start, with the URBs filled.
  have hstart := (((((Relation.ReflTransGen.refl (r := QueueStep) (a := silent)).tail
    (.prepare rfl rfl rfl)).tail (.startWritten rfl)).tail (.startFill rfl)).tail
    (.startCount rfl)).tail (.startInflight rfl)
  -- The session is live, and its four URBs are submitted in the order of the loop.
  have hlive := (((((hstart.tail (.startLive rfl)).tail (.startSubmit .capture 0 rfl (by decide))).tail
    (.startSubmit .playback 0 rfl (by decide))).tail
    (.startSubmit .capture 1 rfl (by decide))).tail
    (.startSubmit .playback 1 rfl (by decide))).tail (.startDone rfl)
  convert hlive using 1
  unfold playing
  congr 1
  -- The URBs of both directions, one by one.
  funext d i
  clear hstart hlive
  match d, i with
  | .playback, 0 => rfl
  | .playback, 1 => rfl
  | .capture, 0 => rfl
  | .capture, 1 => rfl
  | .playback, i + 2 => rfl
  | .capture, i + 2 => rfl

/-- One millisecond after an IN URB. -/
theorem round_trip_steady_playing :
    roundTrip 48000 1000000 playing.chip + (playing.outGone + 1) * 256 = 2 * 256 + 40 + 16 := by
  have hprobe := probeChip_geometry { nurbs := 2 }
  have hg : Geometry playing.chip.toStream :=
    ⟨⟨hprobe.clamped.nurbs, hprobe.clamped.frames_per_urb, hprobe.clamped.urb_frames_min⟩,
      hprobe.urb_frames, hprobe.urbs_active, hprobe.rate, rfl, fun _ => le_refl _⟩
  exact round_trip_steady playing_reachable rfl hg .refl rfl (by decide) 48000 1000000

end BabyfacePro
