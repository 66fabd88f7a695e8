import BabyfacePro.Stream.Queue
import Mathlib.Data.Nat.Count

/-!
# Faults of the URB queue

The handlers of a session's URBs run on any CPU and share the count of the bad ones with each other,
with `babyface_stream_start` and with `babyface_stream_work`, under no lock. `QueueStep` takes each
access to what they share as one step. A URB that leaves the queue of a session that runs leaves the
count at `BF_URB_ERR_STOP` until the session is killed, so the queue never shrinks silently.
-/

namespace BabyfacePro

/-! ## The handlers -/

/-- Where a URB is: not in use, in the queue, or with its handler before one of its accesses. -/
inductive UrbAt where
  | idle
  /-- Filled by `babyface_stream_start`, before its first submission. -/
  | filled
  | queued
  /-- A bad URB, before `atomic_inc_return`. -/
  | error
  /-- The count has reached `BF_URB_ERR_STOP`: before `schedule_work`. -/
  | errorStop
  /-- A bad OUT URB that is not resubmitted, before `bf_out_lost`. -/
  | errorLost
  /-- A good URB, before the `atomic_read` of `babyface_urb_ok`. -/
  | good
  /-- The loop of `babyface_urb_ok`, with the count that it has read. -/
  | clear (err : ℤ)
  /-- The audio of a good URB. -/
  | audio
  /-- Before the test of `->streaming`. -/
  | resubmit
  /-- Before `usb_submit_urb`. -/
  | submit
  /-- An OUT URB that could not be resubmitted, before `bf_out_lost`. -/
  | lost
  /-- Before the `atomic_set` of `babyface_urb_resubmit_failed`. -/
  | failed
  /-- Before the `schedule_work` of `babyface_urb_resubmit_failed`. -/
  | failedStop
  deriving DecidableEq, Repr

/-- A URB that is neither queued nor being handled. -/
def UrbAt.dead : UrbAt → Bool
  | idle | filled => true
  | _ => false

/-- An OUT URB that has left the queue: `bf_out_lost` has counted it, or its handler has returned. -/
def UrbAt.gone : UrbAt → Bool
  | idle | failed | failedStop => true
  | _ => false

/-- A step of the handler of a URB of the direction `d`, on the driver's state, on whether
`chip->stream_work` is queued, and on the URB. The USB core refuses a URB that is being killed, `rejected`,
and may refuse any other. -/
inductive HandlerStep (d : Dir) (rejected : Bool) :
    Chip → Bool → UrbAt → Chip → Bool → UrbAt → Prop
  /-- Any bad status but those of a URB that is killed or of a device that is gone. -/
  | bad (c : Chip) (p : Bool) : HandlerStep d rejected c p .queued c p .error
  | good (c : Chip) (p : Bool) : HandlerStep d rejected c p .queued c p .good
  | count (c : Chip) (p : Bool) :
      HandlerStep d rejected c p .error (babyfaceUrbError c).2 p
        (if (babyfaceUrbError c).1 then .errorStop else .resubmit)
  | schedule (c : Chip) (p : Bool) :
      HandlerStep d rejected c p .errorStop c true (if d = .playback then .errorLost else .idle)
  | errorLost (hd : d = .playback) (c : Chip) (p : Bool) :
      HandlerStep d rejected c p .errorLost (bfOutLost c) p .idle
  | read (c : Chip) (p : Bool) : HandlerStep d rejected c p .good c p (.clear c.urb_err)
  | kept {err : ℤ} (h : err = 0 ∨ BF_URB_ERR_STOP ≤ err) (c : Chip) (p : Bool) :
      HandlerStep d rejected c p (.clear err) c p .audio
  /-- The compare-and-swap finds the count that was read. -/
  | swapped {err : ℤ} (h : err ≠ 0 ∧ err < BF_URB_ERR_STOP) {c : Chip} (hc : c.urb_err = err)
      (p : Bool) : HandlerStep d rejected c p (.clear err) { c with urb_err := 0 } p .audio
  /-- It finds another one, and goes on with that. -/
  | again {err : ℤ} (h : err ≠ 0 ∧ err < BF_URB_ERR_STOP) {c : Chip} (hc : c.urb_err ≠ err)
      (p : Bool) : HandlerStep d rejected c p (.clear err) c p (.clear c.urb_err)
  | audio (c : Chip) (p : Bool) : HandlerStep d rejected c p .audio c p .resubmit
  | live {c : Chip} (h : c.streaming = true) (p : Bool) :
      HandlerStep d rejected c p .resubmit c p .submit
  | retire {c : Chip} (h : c.streaming = false) (p : Bool) :
      HandlerStep d rejected c p .resubmit c p .idle
  | submitted (h : rejected = false) (c : Chip) (p : Bool) :
      HandlerStep d rejected c p .submit c p .queued
  | refused (c : Chip) (p : Bool) :
      HandlerStep d rejected c p .submit c p (if d = .playback then .lost else .failed)
  | lost (hd : d = .playback) (c : Chip) (p : Bool) :
      HandlerStep d rejected c p .lost (bfOutLost c) p .failed
  | failed (c : Chip) (p : Bool) :
      HandlerStep d rejected c p .failed (babyfaceUrbResubmitFailed c) p .failedStop
  | failedStop (c : Chip) (p : Bool) : HandlerStep d rejected c p .failedStop c true .idle

/-- With no other access in between, the loop of `babyface_urb_ok` does what `babyfaceUrbOk` says. -/
theorem babyfaceUrbOk_steps (d : Dir) (rejected : Bool) (c : Chip) (p : Bool) :
    HandlerStep d rejected c p .good c p (.clear c.urb_err) ∧
      HandlerStep d rejected c p (.clear c.urb_err) (babyfaceUrbOk c) p .audio := by
  refine ⟨.read c p, ?_⟩
  unfold babyfaceUrbOk
  split
  · next h => exact .swapped h rfl p
  · next h => exact .kept (by omega) c p

/-- What a URB leaves behind: when it is not resubmitted the count has reached `BF_URB_ERR_STOP`, and
once its handler has said so the work is `called`, unless the device goes away. -/
def Owes (c : Chip) (called : Bool) : UrbAt → Prop
  | .idle | .errorLost => BF_URB_ERR_STOP ≤ c.urb_err ∧ (c.shutdown = true ∨ called = true)
  | .errorStop | .failedStop => BF_URB_ERR_STOP ≤ c.urb_err
  | _ => True

/-- A count that stays up and a work that stays called keep what a URB left behind. -/
theorem Owes.mono {c c' : Chip} {called called' : Bool} {a : UrbAt} (h : Owes c called a)
    (hstop : BF_URB_ERR_STOP ≤ c.urb_err → BF_URB_ERR_STOP ≤ c'.urb_err)
    (hcalled : BF_URB_ERR_STOP ≤ c.urb_err → c.shutdown = true ∨ called = true →
      c'.shutdown = true ∨ called' = true) :
    Owes c' called' a := by
  cases a with
  | idle => exact ⟨hstop h.1, hcalled h.1 h.2⟩
  | errorLost => exact ⟨hstop h.1, hcalled h.1 h.2⟩
  | errorStop => exact hstop h
  | failedStop => exact hstop h
  | _ => trivial

/-- What a step of a handler does: only the counts change, and the count of the bad URBs does not fall
from `BF_URB_ERR_STOP`. -/
structure Handled (d : Dir) (c : Chip) (p : Bool) (a : UrbAt) (c' : Chip) (p' : Bool) (a' : UrbAt) :
    Prop where
  chip : c' = { c with urb_err := c'.urb_err, out_inflight := c'.out_inflight }
  pending : p = true → p' = true
  stop : BF_URB_ERR_STOP ≤ c.urb_err → BF_URB_ERR_STOP ≤ c'.urb_err
  alive : a.dead = false
  sent : a' ≠ .filled
  owes (w : Bool) : c.streaming = true → Owes c (p || w) a → Owes c' (p' || w) a'
  capture : d = .capture → c'.out_inflight = c.out_inflight
  playback : d = .playback → c.streaming = true → (a.gone = false → 0 < c.out_inflight) →
    c'.out_inflight + a'.gone.toNat = c.out_inflight + a.gone.toNat

/-- The effect of each step of a handler. -/
theorem HandlerStep.handled {d : Dir} {rejected : Bool} {c c' : Chip} {p p' : Bool} {a a' : UrbAt}
    (h : HandlerStep d rejected c p a c' p' a') : Handled d c p a c' p' a' := by
  cases h with
  -- None of these touches the counts, and the URB stays with its handler or goes back to the queue.
  | bad | good | read | kept | again | audio | live | submitted =>
    exact ⟨rfl, id, id, rfl, by simp, fun _ _ _ => trivial, fun _ => rfl, fun _ _ _ => rfl⟩
  -- The error count reaches the limit with this error, or the URB is to be submitted again.
  | count =>
    have herr : (babyfaceUrbError c).2.urb_err = c.urb_err + 1 := rfl
    refine ⟨rfl, id, fun hc => by omega, rfl, by split <;> simp, fun w _ _ => ?_, fun _ => rfl,
      fun _ _ _ => by split <;> rfl⟩
    split
    · next hstop =>
      show BF_URB_ERR_STOP ≤ c.urb_err + 1
      exact of_decide_eq_true hstop
    · trivial
  -- The work is called, so what the handler leaves is owed by a run to come.
  | schedule =>
    refine ⟨rfl, fun _ => rfl, id, rfl, by split <;> simp, fun w _ ho => ?_, fun _ => rfl,
      fun hd _ _ => by rw [if_pos hd]; rfl⟩
    split <;> exact ⟨ho, .inr (Bool.true_or w)⟩
  -- Only a playback URB is counted as in flight, and it is lost in the step that takes it off the count.
  | errorLost hd =>
    refine ⟨rfl, id, id, rfl, by simp, fun _ _ ho => ho, fun hc => by simp [hd] at hc, ?_⟩
    intro _ _ hpos
    have := hpos rfl
    simp only [bfOutLost, UrbAt.gone, Bool.toNat_true, Bool.toNat_false]
    omega
  -- The count of errors was nonzero and is zero now, which is below the limit.
  | swapped h hc =>
    exact ⟨rfl, id, fun hs => absurd hs (by omega), rfl, by simp, fun _ _ _ => trivial, fun _ => rfl,
      fun _ _ _ => rfl⟩
  -- A URB is retired only when no session is live.
  | retire h =>
    exact ⟨rfl, id, id, rfl, by simp, fun _ hs => by simp [h] at hs, fun _ => rfl,
      fun _ hs => by simp [h] at hs⟩
  -- A playback URB that is refused is taken off the count in a step of its own.
  | refused =>
    exact ⟨rfl, id, id, rfl, by split <;> simp, fun _ _ _ => by split <;> trivial, fun _ => rfl,
      fun hd _ _ => by rw [if_pos hd]; rfl⟩
  | lost hd =>
    refine ⟨rfl, id, id, rfl, by simp, fun _ _ _ => trivial, fun hc => by simp [hd] at hc, ?_⟩
    intro _ _ hpos
    have := hpos rfl
    simp only [bfOutLost, UrbAt.gone, Bool.toNat_true, Bool.toNat_false]
    omega
  -- A failed submission sets the count to the limit.
  | failed =>
    exact ⟨rfl, id, fun _ => le_rfl, rfl, by simp, fun _ _ _ => le_refl BF_URB_ERR_STOP, fun _ => rfl,
      fun _ _ _ => rfl⟩
  | failedStop =>
    exact ⟨rfl, fun _ => rfl, id, rfl, by simp, fun w _ ho => ⟨ho, .inr (Bool.true_or w)⟩,
      fun _ => rfl, fun _ _ _ => rfl⟩

/-! ## The queue -/

/-- Who stops a session. -/
inductive Killer where
  /-- The error path of `babyface_stream_start`. -/
  | start
  | work
  /-- Another section under the mutex: hw_params, hw_free, disconnect or suspend. -/
  | other
  deriving DecidableEq, Repr

/-- Where `babyface_stream_start` is. -/
inductive StartAt where
  /-- The rate and the trigger pair. -/
  | writes
  | fill
  /-- The `atomic_set` of the count. -/
  | count
  | inflight
  | live
  /-- Before the submission of the URB in the slot `k`; past the last one, before the arm. -/
  | submit (k : ℕ)
  deriving DecidableEq, Repr

/-- What the thread that holds `chip->mutex` is at, as far as it concerns the URBs. -/
inductive Holder where
  | free
  | start (p : StartAt)
  /-- `babyface_stream_kill`, before it clears `->streaming`. -/
  | mark (who : Killer)
  /-- `babyface_stream_kill`, in the `usb_kill_urb` of the slot `k` or past the last one. -/
  | kill (who : Killer) (k : ℕ)
  /-- `babyface_stream_work`, before it reads `->shutdown`. -/
  | check
  /-- `babyface_stream_work`, before it reads the count. -/
  | test
  /-- `babyface_stream_work`, before it clears the count. -/
  | clear
  deriving DecidableEq, Repr

/-- The URBs in the order in which the loops of start and kill take them. -/
def slot (d : Dir) (i : ℕ) : ℕ := 2 * i + if d = .capture then 0 else 1

/-- The slots that `babyface_stream_start` has filled and not submitted. -/
def Holder.primes : Holder → ℕ → Bool
  | .start .count, _ | .start .inflight, _ | .start .live, _ => true
  | .start (.submit k), j => decide (k ≤ j)
  | _, _ => false

/-- The slots that `babyface_stream_kill` has not done yet. -/
def Holder.kills : Holder → ℕ → Bool
  | .kill _ k, j => decide (k ≤ j)
  | _, _ => false

/-- A start that has not returned, or that has failed. -/
def Holder.starting : Holder → Bool
  | .start _ | .mark .start => true
  | _ => false

/-- The values of `->streaming` that the thread with the mutex leaves. -/
def Holder.fits : Holder → Bool → Prop
  | .start (.submit _), b => b = true
  | .start _, b | .kill .., b | .clear, b => b = false
  | _, _ => True

/-- Only a start fills the URBs. -/
theorem Holder.starting_of_primes {h : Holder} {k : ℕ} (hp : h.primes k = true) :
    h.starting = true := by
  cases h with
  | start p => rfl
  | _ => cases hp

/-- The driver with the URBs of both directions, and with its work item. -/
structure UrbQueue where
  chip : Chip
  /-- `chip->stream_work` is queued. -/
  pending : Bool := false
  /-- `babyface_stream_work` runs. -/
  active : Bool := false
  holder : Holder := .free
  urb : Dir → ℕ → UrbAt := fun _ _ => .idle

namespace UrbQueue

/-- The URBs, with one of them at another place. -/
def moved (s : UrbQueue) (d : Dir) (i : ℕ) (a : UrbAt) : Dir → ℕ → UrbAt :=
  Function.update s.urb d (Function.update (s.urb d) i a)

/-- Whether the USB core refuses a URB, for being killed. -/
def rejects (s : UrbQueue) (d : Dir) (i : ℕ) : Bool :=
  match s.holder with
  | .kill _ k => decide (k = slot d i)
  | _ => false

/-- The session runs, and the start that brought it up has returned 0. -/
def Up (s : UrbQueue) : Prop := s.chip.streaming = true ∧ s.holder.starting = false

/-- The session is killed: no URB is queued or being handled. -/
def Killed (s : UrbQueue) : Prop := s.chip.streaming = false ∧ ∀ d i, (s.urb d i).dead = true

/-- How many of the session's URBs of a direction are queued or being handled. -/
def held (s : UrbQueue) (d : Dir) : ℕ :=
  Nat.count (fun i => (s.urb d i).dead = false) s.chip.urbs_active

/-- How many of the session's OUT URBs have left the queue. -/
def outGone (s : UrbQueue) : ℕ :=
  Nat.count (fun i => (s.urb .playback i).gone = true) s.chip.urbs_active

end UrbQueue

/-- A step of the driver, as far as it concerns the URBs. -/
inductive QueueStep : UrbQueue → UrbQueue → Prop
  | handler (d : Dir) (i : ℕ) {s : UrbQueue} {c : Chip} {p : Bool} {a : UrbAt}
      (h : HandlerStep d (s.rejects d i) s.chip s.pending (s.urb d i) c p a) :
      QueueStep s { s with chip := c, pending := p, urb := s.moved d i a }
  /-- The session's part of `babyface_pcm_prepare`. -/
  | prepare {s : UrbQueue} (h : s.holder = .free) (hd : s.chip.shutdown = false)
      (hs : s.chip.streaming = false) : QueueStep s { s with holder := .start .writes }
  /-- A transfer of a start fails, whatever was sent before. -/
  | startFails {s : UrbQueue} (h : s.holder = .start .writes ∨ ∃ k, s.holder = .start (.submit k)) :
      QueueStep s { s with holder := .mark .start }
  | startWritten {s : UrbQueue} (h : s.holder = .start .writes) :
      QueueStep s { s with holder := .start .fill }
  | startFill {s : UrbQueue} (h : s.holder = .start .fill) :
      QueueStep s
        { s with
          holder := .start .count
          urb := fun d i => if i < s.chip.urbs_active then .filled else s.urb d i }
  | startCount {s : UrbQueue} (h : s.holder = .start .count) :
      QueueStep s { s with holder := .start .inflight, chip := { s.chip with urb_err := 0 } }
  | startInflight {s : UrbQueue} (h : s.holder = .start .inflight) :
      QueueStep s
        { s with
          holder := .start .live
          chip := { s.chip with out_inflight := s.chip.urbs_active } }
  | startLive {s : UrbQueue} (h : s.holder = .start .live) :
      QueueStep s { s with holder := .start (.submit 0), chip := { s.chip with streaming := true } }
  | startSubmit (d : Dir) (i : ℕ) {s : UrbQueue} (h : s.holder = .start (.submit (slot d i)))
      (hi : i < s.chip.urbs_active) :
      QueueStep s
        { s with holder := .start (.submit (slot d i + 1)), urb := s.moved d i .queued }
  /-- The arm gets through, and the start returns 0. -/
  | startDone {s : UrbQueue} (h : s.holder = .start (.submit (2 * s.chip.urbs_active))) :
      QueueStep s { s with holder := .free }
  /-- A section that stops the session, but for the one of the work. -/
  | stop {s : UrbQueue} (h : s.holder = .free) (hs : s.chip.streaming = true) :
      QueueStep s { s with holder := .mark .other }
  | killMark {s : UrbQueue} {who : Killer} (h : s.holder = .mark who) :
      QueueStep s { s with holder := .kill who 0, chip := { s.chip with streaming := false } }
  /-- A URB that is taken from the queue completes as killed, and its handler returns at once. -/
  | unlink (d : Dir) (i : ℕ) {s : UrbQueue} {who : Killer} (h : s.holder = .kill who (slot d i))
      (hq : s.urb d i = .queued) : QueueStep s { s with urb := s.moved d i .idle }
  /-- `usb_kill_urb` returns once the URB is not queued and its handler has returned. -/
  | killUrb (d : Dir) (i : ℕ) {s : UrbQueue} {who : Killer} (h : s.holder = .kill who (slot d i))
      (hi : i < s.chip.nurbs) (hd : (s.urb d i).dead = true) :
      QueueStep s { s with holder := .kill who (slot d i + 1) }
  | killDone {s : UrbQueue} {who : Killer} (h : s.holder = .kill who (2 * s.chip.nurbs)) :
      QueueStep s { s with holder := if who = .work then .clear else .free }
  /-- `babyface_pcm_hw_params` chooses the number of URBs. -/
  | geometry {n : ℕ} {s : UrbQueue} (h : s.holder = .free) (hs : s.chip.streaming = false)
      (hn : n ≤ s.chip.nurbs) : QueueStep s { s with chip := { s.chip with urbs_active := n } }
  | shutdown (s : UrbQueue) : QueueStep s { s with chip := { s.chip with shutdown := true } }
  | workBegin {s : UrbQueue} (hp : s.pending = true) (ha : s.active = false) :
      QueueStep s { s with pending := false, active := true }
  | workLock {s : UrbQueue} (h : s.holder = .free) (ha : s.active = true) :
      QueueStep s { s with holder := .check }
  | workTest {s : UrbQueue} (h : s.holder = .check) (hd : s.chip.shutdown = false) :
      QueueStep s { s with holder := .test }
  | workStop {s : UrbQueue} (h : s.holder = .test) (he : BF_URB_ERR_STOP ≤ s.chip.urb_err) :
      QueueStep s { s with holder := if s.chip.streaming then .mark .work else .clear }
  | workLeave {s : UrbQueue}
      (h : s.holder = .check ∧ s.chip.shutdown = true ∨
        s.holder = .test ∧ s.chip.urb_err < BF_URB_ERR_STOP) :
      QueueStep s { s with holder := .free, active := false }
  /-- The end of `babyface_stream_work`, after `babyface_pcm_stop_both`. -/
  | workClear {s : UrbQueue} (h : s.holder = .clear) :
      QueueStep s
        { s with holder := .free, active := false, chip := { s.chip with urb_err := 0 } }
  /-- The `cancel_work_sync` of disconnect and of suspend: no application runs during a suspend, so no
  session comes up between its kill and this. -/
  | cancel {s : UrbQueue} (hs : s.chip.shutdown = true ∨ s.chip.streaming = false)
      (ha : s.active = false) : QueueStep s { s with pending := false }

/-- No session runs, whatever the last one has left in the counters. -/
structure FreshQueue (s : UrbQueue) : Prop where
  streaming : s.chip.streaming = false
  holder : s.holder = .free
  urb : ∀ d i, s.urb d i = .idle
  urbs_active : s.chip.urbs_active ≤ s.chip.nurbs

/-- The states that the steps lead to from one in which no session runs. -/
def QueueReachable (s : UrbQueue) : Prop := ∃ s₀, FreshQueue s₀ ∧ Relation.ReflTransGen QueueStep s₀ s

/-! ## The invariant -/

/-- Each URB has its own slot. -/
theorem slot_inj {d e : Dir} {i j : ℕ} (h : slot d i = slot e j) : d = e ∧ i = j := by
  cases d <;> cases e <;> simp [slot] at h ⊢ <;> omega

/-- The URBs of a session have its first slots. -/
theorem slot_lt {d : Dir} {i n : ℕ} (h : i < n) : slot d i < 2 * n := by
  unfold slot
  split <;> omega

namespace UrbQueue

/-- The URB that was moved. -/
theorem moved_self (s : UrbQueue) (d : Dir) (i : ℕ) (a : UrbAt) : s.moved d i a d i = a := by
  simp [moved]

/-- The others stay where they were. -/
theorem moved_other (s : UrbQueue) {d e : Dir} {i j : ℕ} (a : UrbAt) (h : ¬ (e = d ∧ j = i)) :
    s.moved d i a e j = s.urb e j := by
  unfold moved
  by_cases hd : e = d
  · subst hd
    rw [Function.update_self, Function.update_of_ne (fun hj => h ⟨rfl, hj⟩)]
  · rw [Function.update_of_ne hd]

/-- What holds between the URBs, the counters and the thread with the mutex. -/
structure Inv (s : UrbQueue) : Prop where
  urbs_active : s.chip.urbs_active ≤ s.chip.nurbs
  beyond (d : Dir) (i : ℕ) : s.chip.urbs_active ≤ i → (s.urb d i).dead = true
  fits : s.holder.fits s.chip.streaming
  /-- A session that does not run has no URBs left, but for those that a kill is still to come to. -/
  still : s.chip.streaming = false →
    ∀ d i, s.holder.kills (slot d i) = false → (s.urb d i).dead = true
  primed (d : Dir) (i : ℕ) : i < s.chip.urbs_active → s.holder.primes (slot d i) = true →
    s.urb d i = .filled
  sent : s.chip.streaming = true → ∀ d i, i < s.chip.urbs_active → s.urb d i = .filled →
    s.holder.primes (slot d i) = true ∨ s.holder = .mark .start
  owes : s.chip.streaming = true → ∀ d i, i < s.chip.urbs_active →
    Owes s.chip (s.pending || s.active) (s.urb d i)
  inflight : s.chip.streaming = true ∨ s.holder = .start .live →
    s.chip.out_inflight + s.outGone = s.chip.urbs_active

/-- The count of the URBs with a property, when one URB may have changed. -/
theorem count_update {p q : ℕ → Prop} [DecidablePred p] [DecidablePred q] {i n : ℕ}
    (h : ∀ j, j ≠ i → (p j ↔ q j)) (hi : i < n) :
    Nat.count p n + (if q i then 1 else 0) = Nat.count q n + if p i then 1 else 0 := by
  induction n with
  | zero => omega
  | succ n ih =>
    rw [Nat.count_succ, Nat.count_succ]
    -- The URB that changed is below the last one, or it is the last one itself.
    rcases Nat.lt_or_eq_of_le (Nat.lt_succ_iff.mp hi) with hlt | heq
    · have hn : (p n ↔ q n) := h n (by omega)
      have := ih hlt
      simp only [hn]
      omega
    -- Below the last URB nothing changed.
    · have hcount : Nat.count p n = Nat.count q n := by
        subst heq
        rw [Nat.count_eq_card_filter_range, Nat.count_eq_card_filter_range]
        congr 1
        apply Finset.filter_congr
        intro j hj
        exact h j (Finset.mem_range.mp hj).ne
      rw [hcount, heq]
      omega

/-- The OUT URBs that are gone after one URB has moved. -/
theorem outGone_moved {s t : UrbQueue} {d : Dir} {i : ℕ} {a : UrbAt} (hu : t.urb = s.moved d i a)
    (hn : t.chip.urbs_active = s.chip.urbs_active) (hi : i < s.chip.urbs_active) :
    t.outGone + (if d = .playback then (s.urb d i).gone.toNat else 0) =
      s.outGone + if d = .playback then a.gone.toNat else 0 := by
  unfold outGone
  rw [hn, hu]
  by_cases hd : d = .playback
  · subst hd
    have hother (j : ℕ) (hj : j ≠ i) :
        ((s.moved .playback i a .playback j).gone = true ↔ (s.urb .playback j).gone = true) := by
      rw [s.moved_other a (fun h => hj h.2)]
    have hcount := count_update hother hi
    rw [moved_self] at hcount
    rw [if_pos rfl, if_pos rfl]
    cases ha : a.gone <;> cases hg : (s.urb .playback i).gone <;> simp_all
  · have hother (j : ℕ) : s.moved d i a .playback j = s.urb .playback j :=
      s.moved_other a (fun h => hd h.1.symm)
    simp only [hother, if_neg hd]

namespace Inv

variable {s : UrbQueue}

/-- A session that does not run and is not being killed has no URBs left. -/
theorem dead (hinv : s.Inv) (hs : s.chip.streaming = false)
    (hk : ∀ k, s.holder.kills k = false) (d : Dir) (i : ℕ) : (s.urb d i).dead = true :=
  hinv.still hs d i (hk _)

/-- A handler's URB is one of the session's. -/
theorem handled_lt (hinv : s.Inv) {d : Dir} {i : ℕ} (h : (s.urb d i).dead = false) :
    i < s.chip.urbs_active := by
  by_contra hge
  have := hinv.beyond d i (by omega)
  simp [h] at this

/-- No kill is past a handler's URB. -/
theorem handled_kills (hinv : s.Inv) {d : Dir} {i : ℕ} (h : (s.urb d i).dead = false)
    (hs : s.chip.streaming = false) : s.holder.kills (slot d i) = true := by
  by_contra hk
  have := hinv.still hs d i (by simpa using hk)
  simp [h] at this

/-- An OUT URB that the host has is counted. -/
theorem counted (hinv : s.Inv) (hrun : s.chip.streaming = true) {i : ℕ} (hi : i < s.chip.urbs_active)
    (hg : (s.urb .playback i).gone = false) : 0 < s.chip.out_inflight := by
  have hsum := hinv.inflight (.inl hrun)
  have hlt : s.outGone < s.chip.urbs_active := by
    refine lt_of_le_of_ne (Nat.count_le _) fun heq => ?_
    have := Nat.count_iff_forall.mp heq i hi
    simp [hg] at this
  omega

/-- A handler's URB keeps what a session that has stopped owes, and the other URBs too. -/
theorem handled_owes (hinv : s.Inv) {d : Dir} {i : ℕ} {c : Chip} {p : Bool} {a : UrbAt}
    (h : Handled d s.chip s.pending (s.urb d i) c p a) (hs : s.chip.streaming = true) (e : Dir) (j : ℕ)
    (hj : j < s.chip.urbs_active) : Owes c (p || s.active) (s.moved d i a e j) := by
  have howes := hinv.owes hs e j hj
  by_cases he : e = d ∧ j = i
  · obtain ⟨rfl, rfl⟩ := he
    rw [moved_self]
    exact h.owes s.active hs howes
  · rw [s.moved_other a he]
    have hdown : c.shutdown = s.chip.shutdown := by rw [h.chip]
    refine howes.mono h.stop fun _ hc => ?_
    rw [hdown]
    refine hc.imp_right fun hcalled => ?_
    rw [Bool.or_eq_true] at hcalled ⊢
    exact hcalled.imp_left h.pending

/-- `out_inflight` and the OUT URBs that are gone make up the session's, after a handler's step. -/
theorem handled_inflight (hinv : s.Inv) {d : Dir} {i : ℕ} {c : Chip} {p : Bool} {a : UrbAt}
    (h : Handled d s.chip s.pending (s.urb d i) c p a) (hrun : s.chip.streaming = true) :
    c.out_inflight + outGone { s with chip := c, pending := p, urb := s.moved d i a } =
      c.urbs_active := by
  have hact : c.urbs_active = s.chip.urbs_active := by rw [h.chip]
  have hi := hinv.handled_lt h.alive
  have hsum := hinv.inflight (.inl hrun)
  have hgone := outGone_moved (t := { s with chip := c, pending := p, urb := s.moved d i a })
    rfl hact hi
  cases d with
  | playback =>
    have := h.playback rfl hrun (hinv.counted hrun hi)
    simp only [if_true] at hgone
    omega
  | capture =>
    have := h.capture rfl
    simp only [reduceCtorEq, if_false] at hgone
    omega

/-- A step of a handler keeps the invariant. -/
theorem handler (hinv : s.Inv) {d : Dir} {i : ℕ} {c : Chip} {p : Bool} {a : UrbAt}
    (h : Handled d s.chip s.pending (s.urb d i) c p a) :
    Inv { s with chip := c, pending := p, urb := s.moved d i a } := by
  have hact : c.urbs_active = s.chip.urbs_active := by rw [h.chip]
  have hnurbs : c.nurbs = s.chip.nurbs := by rw [h.chip]
  have hlive : c.streaming = s.chip.streaming := by rw [h.chip]
  -- A handler only has a URB of the session, and the kill has not passed it.
  have hi := hinv.handled_lt h.alive
  have hkills := hinv.handled_kills h.alive
  have hother {e : Dir} {j : ℕ} (hne : ¬ (e = d ∧ j = i)) : s.moved d i a e j = s.urb e j :=
    s.moved_other a hne
  exact
    { urbs_active := by rw [hact, hnurbs]; exact hinv.urbs_active
      beyond := by
        intro e j hj
        rw [hact] at hj
        show (s.moved d i a e j).dead = true
        rw [hother (fun he => by omega)]
        exact hinv.beyond e j hj
      fits := by rw [hlive]; exact hinv.fits
      still := by
        intro hs e j hk
        rw [hlive] at hs
        -- A URB that the kill has passed is dead, so it is not the one that is handled.
        by_cases he : e = d ∧ j = i
        · obtain ⟨rfl, rfl⟩ := he
          simp [hkills hs] at hk
        · show (s.moved d i a e j).dead = true
          rw [hother he]
          exact hinv.still hs e j hk
      primed := by
        intro e j hj hp
        rw [hact] at hj
        have hfilled := hinv.primed e j hj hp
        -- An URB that waits for its first submit has no handler.
        have hne : ¬ (e = d ∧ j = i) := by
          rintro ⟨rfl, rfl⟩
          have := h.alive
          simp [hfilled, UrbAt.dead] at this
        show s.moved d i a e j = .filled
        rw [hother hne]
        exact hfilled
      sent := by
        intro hs e j hj hu
        rw [hlive] at hs
        rw [hact] at hj
        -- A handler leaves no URB as one that is filled and not submitted.
        by_cases he : e = d ∧ j = i
        · obtain ⟨rfl, rfl⟩ := he
          exact absurd ((s.moved_self e j a).symm.trans hu) h.sent
        · exact hinv.sent hs e j hj ((hother he).symm.trans hu)
      owes := by
        intro hs e j hj
        rw [hlive] at hs
        rw [hact] at hj
        exact hinv.handled_owes h hs e j hj
      inflight := by
        intro hs
        refine hinv.handled_inflight h ?_
        rcases hs with hs | hs
        · exact hlive ▸ hs
        · -- Before a session is live, its URBs are dead.
          by_contra hns
          have := hkills (by simpa using hns)
          simp [show s.holder = .start .live from hs, Holder.kills] at this }

/-- The thread with the mutex goes on, to a place that says no more of the URBs, and the work may be
called or leave. -/
theorem goes (hinv : s.Inv) {h : Holder} {p a : Bool} (hfits : h.fits s.chip.streaming)
    (hkills : ∀ k, s.holder.kills k = false) (hprimes : ∀ k, h.primes k = false)
    (hlive : h ≠ .start .live)
    (hsent : h = .mark .start ∨
      s.holder ≠ .mark .start ∧ ∀ k < 2 * s.chip.urbs_active, s.holder.primes k = false)
    (hcalled : BF_URB_ERR_STOP ≤ s.chip.urb_err →
      s.chip.shutdown = true ∨ (s.pending || s.active) = true →
      s.chip.shutdown = true ∨ (p || a) = true) :
    Inv { s with holder := h, pending := p, active := a } where
  urbs_active := hinv.urbs_active
  beyond := hinv.beyond
  fits := hfits
  still hs d i _ := hinv.dead hs hkills d i
  -- The new place primes no slot, so it says nothing of the URBs that are filled.
  primed d i _ hp := by
    have : h.primes (slot d i) = true := hp
    simp [hprimes] at this
  sent hs d i hi hu := by
    -- What is filled is left to the failed start to kill, or there was none.
    rcases hsent with heq | ⟨hne, hnone⟩
    · exact .inr heq
    · rcases hinv.sent hs d i hi hu with hp | hp
      · simp [hnone _ (slot_lt hi)] at hp
      · exact absurd hp hne
  owes hs d i hi := (hinv.owes hs d i hi).mono id hcalled
  inflight hs := hinv.inflight (hs.imp_right fun heq => absurd heq hlive)

/-- A work that is called or cancelled while no session needs it keeps the invariant. -/
theorem calls (hinv : s.Inv) {p a : Bool}
    (hcalled : s.chip.streaming = true →
      s.chip.shutdown = true ∨ (s.pending || s.active) = true →
      s.chip.shutdown = true ∨ (p || a) = true) :
    Inv { s with pending := p, active := a } :=
  { hinv with owes := fun hs d i hi => (hinv.owes hs d i hi).mono id fun _ => hcalled hs }

/-- The URBs filled by a start are those that it will submit. -/
theorem startFill (hinv : s.Inv) (h : s.holder = .start .fill) :
    Inv
      { s with
        holder := .start .count
        urb := fun d i => if i < s.chip.urbs_active then .filled else s.urb d i } := by
  have hs : s.chip.streaming = false := by
    have hfits := hinv.fits
    rwa [h] at hfits
  -- No session runs at this point, so every URB is dead before the buffers are filled.
  have hdead := hinv.dead hs (fun k => by rw [h]; rfl)
  exact
    { urbs_active := hinv.urbs_active
      beyond := fun d i hi => by
        show (if i < s.chip.urbs_active then UrbAt.filled else s.urb d i).dead = true
        rw [if_neg (Nat.not_lt.mpr hi)]
        exact hdead d i
      fits := hs
      still := fun _ d i _ => by
        show (if i < s.chip.urbs_active then UrbAt.filled else s.urb d i).dead = true
        split
        · rfl
        · exact hdead d i
      primed := fun d i hi _ => if_pos hi
      sent := fun hrun => by simp [hs] at hrun
      owes := fun hrun => by simp [hs] at hrun
      inflight := fun hrun => by simp [hs] at hrun }

/-- A start that has filled the URBs goes on to mark the session live. -/
theorem startMarks (hinv : s.Inv) {p q : StartAt} (h : s.holder = .start p)
    (hp : p = .count ∨ p = .inflight) (hq : q = .inflight ∨ q = .live) {c : Chip}
    (hact : c.urbs_active = s.chip.urbs_active) (hnurbs : c.nurbs = s.chip.nurbs)
    (hlive : c.streaming = s.chip.streaming) (hout : q = .live → c.out_inflight = c.urbs_active) :
    Inv { s with holder := .start q, chip := c } := by
  have hprimes (k : ℕ) : s.holder.primes k = true := by
    rw [h]
    rcases hp with rfl | rfl <;> rfl
  have hs : s.chip.streaming = false := by
    have hfits := hinv.fits
    rw [h] at hfits
    rcases hp with rfl | rfl <;> exact hfits
  have hs' : c.streaming = false := hlive.trans hs
  -- The places before the session is live differ in the counts alone.
  have hdead := hinv.dead hs (fun k => by rw [h]; rfl)
  have hfilled (d : Dir) (i : ℕ) (hi : i < c.urbs_active) : s.urb d i = .filled :=
    hinv.primed d i (hact ▸ hi) (hprimes _)
  exact
    { urbs_active := by rw [hact, hnurbs]; exact hinv.urbs_active
      beyond := fun d i _ => hdead d i
      fits := by rcases hq with rfl | rfl <;> exact hs'
      still := fun _ d i _ => hdead d i
      primed := fun d i hi _ => hfilled d i hi
      sent := fun hrun => by simp [hs'] at hrun
      owes := fun hrun => by simp [hs'] at hrun
      inflight := by
        rintro (hrun | heq)
        · simp [hs'] at hrun
        -- No URB that is filled is gone, and the count in flight is the number of URBs.
        · have hcount : Nat.count (fun i => (s.urb .playback i).gone = true) c.urbs_active = 0 := by
            rw [Nat.count_iff_forall_not]
            intro i hi
            rw [hfilled .playback i hi]
            decide
          show c.out_inflight + Nat.count _ c.urbs_active = c.urbs_active
          rw [hcount, hout (by simpa using heq), Nat.add_zero] }

/-- The session is live before its first URB is submitted. -/
theorem startLive (hinv : s.Inv) (h : s.holder = .start .live) :
    Inv { s with holder := .start (.submit 0), chip := { s.chip with streaming := true } } := by
  have hfilled (d : Dir) (i : ℕ) (hi : i < s.chip.urbs_active) : s.urb d i = .filled :=
    hinv.primed d i hi (by rw [h]; rfl)
  exact
    { urbs_active := hinv.urbs_active
      beyond := hinv.beyond
      fits := rfl
      still := fun hs => nomatch hs
      primed := fun d i hi _ => hfilled d i hi
      sent := fun _ d i _ _ => .inl (decide_eq_true (Nat.zero_le (slot d i)))
      owes := fun _ d i hi => by
        show Owes _ _ (s.urb d i)
        rw [hfilled d i hi]
        trivial
      inflight := fun _ => hinv.inflight (.inr h) }

/-- A start hands its URBs out one by one. -/
theorem startSubmit (hinv : s.Inv) {d : Dir} {i : ℕ} (h : s.holder = .start (.submit (slot d i)))
    (hi : i < s.chip.urbs_active) :
    Inv { s with holder := .start (.submit (slot d i + 1)), urb := s.moved d i .queued } := by
  have hrun : s.chip.streaming = true := by
    have hfits := hinv.fits
    rwa [h] at hfits
  have hother {e : Dir} {j : ℕ} (hne : ¬ (e = d ∧ j = i)) : s.moved d i .queued e j = s.urb e j :=
    s.moved_other .queued hne
  -- The slot to come is filled, as the start has not reached it.
  have hfilled : s.urb d i = .filled := hinv.primed d i hi (by simp [h, Holder.primes])
  have hgone := outGone_moved
    (t := { s with holder := .start (.submit (slot d i + 1)), urb := s.moved d i .queued })
    rfl rfl hi
  exact
    { urbs_active := hinv.urbs_active
      beyond := fun e j hj => by
        show (s.moved d i .queued e j).dead = true
        rw [hother (fun he => Nat.not_lt.mpr hj (he.2 ▸ hi))]
        exact hinv.beyond e j hj
      fits := hrun
      still := fun hs => by simp [hrun] at hs
      -- The slots after this one are still to be submitted.
      primed := fun e j hj hp => by
        have hlt : slot d i + 1 ≤ slot e j := of_decide_eq_true hp
        show s.moved d i .queued e j = .filled
        rw [hother (by rintro ⟨rfl, rfl⟩; omega)]
        exact hinv.primed e j hj (by simp only [h, Holder.primes, decide_eq_true_eq]; omega)
      sent := fun _ e j hj hu => by
        have hu' : s.moved d i .queued e j = .filled := hu
        -- The URB of this slot is queued now; any other one keeps its place and its slot.
        by_cases he : e = d ∧ j = i
        · obtain ⟨rfl, rfl⟩ := he
          rw [moved_self] at hu'
          cases hu'
        · rw [hother he] at hu'
          have hp := hinv.sent hrun e j hj hu'
          simp only [h, Holder.primes, decide_eq_true_eq, reduceCtorEq, or_false] at hp
          have hne : slot d i ≠ slot e j := fun heq => he ((slot_inj heq).imp Eq.symm Eq.symm)
          exact .inl (decide_eq_true (by omega))
      owes := fun _ e j hj => by
        show Owes _ _ (s.moved d i .queued e j)
        by_cases he : e = d ∧ j = i
        · obtain ⟨rfl, rfl⟩ := he
          rw [moved_self]
          trivial
        · rw [hother he]
          exact hinv.owes hrun e j hj
      inflight := fun _ => by
        have hsum := hinv.inflight (.inl hrun)
        simp only [hfilled, UrbAt.gone, Bool.toNat_false, ite_self] at hgone
        show s.chip.out_inflight + _ = s.chip.urbs_active
        -- A URB that goes from filled to queued is not gone in either place.
        omega }

/-- `babyface_stream_kill` has all URBs to come to when it has cleared `->streaming`. -/
theorem killMark (hinv : s.Inv) (who : Killer) :
    Inv { s with holder := .kill who 0, chip := { s.chip with streaming := false } } where
  urbs_active := hinv.urbs_active
  beyond := hinv.beyond
  fits := rfl
  still _ d i hk := by
    have : decide (0 ≤ slot d i) = false := hk
    simp at this
  primed d i _ hp := nomatch hp
  sent hs := nomatch hs
  owes hs := nomatch hs
  inflight hs := by
    rcases hs with hs | hs
    · cases hs
    · cases hs

/-- A URB that is killed is neither queued nor with its handler. -/
theorem unlink (hinv : s.Inv) {who : Killer} {k : ℕ} (h : s.holder = .kill who k) (d : Dir) (i : ℕ) :
    Inv { s with urb := s.moved d i .idle } := by
  have hs : s.chip.streaming = false := by
    have hfits := hinv.fits
    rwa [h] at hfits
  -- A URB that is dead stays dead when the kill makes it idle.
  have hdead {e : Dir} {j : ℕ} (hj : (s.urb e j).dead = true) :
      (s.moved d i .idle e j).dead = true := by
    by_cases he : e = d ∧ j = i
    · obtain ⟨rfl, rfl⟩ := he
      rw [moved_self]
      rfl
    · rwa [s.moved_other .idle he]
  exact
    { urbs_active := hinv.urbs_active
      beyond := fun e j hj => hdead (hinv.beyond e j hj)
      fits := hinv.fits
      still := fun _ e j hk => hdead (hinv.still hs e j hk)
      primed := fun e j _ hp => by simp [h, Holder.primes] at hp
      sent := fun hrun => by simp [hs] at hrun
      owes := fun hrun => by simp [hs] at hrun
      inflight := fun hrun => by simp [hs, h] at hrun }

/-- A kill goes on from a URB that is dead to the next one. -/
theorem killUrb (hinv : s.Inv) {who : Killer} {d : Dir} {i : ℕ}
    (h : s.holder = .kill who (slot d i)) (hd : (s.urb d i).dead = true) :
    Inv { s with holder := .kill who (slot d i + 1) } := by
  have hs : s.chip.streaming = false := by
    have hfits := hinv.fits
    rwa [h] at hfits
  exact
    { hinv with
      fits := hs
      still := fun _ e j hk => by
        have hle : ¬ slot d i + 1 ≤ slot e j := of_decide_eq_false hk
        by_cases heq : slot e j = slot d i
        · obtain ⟨rfl, rfl⟩ := slot_inj heq
          exact hd
        · exact hinv.still hs e j (by simp only [h, Holder.kills, decide_eq_false_iff_not]; omega)
      primed := fun _ _ _ hp => nomatch hp
      sent := fun hrun => by simp [hs] at hrun
      inflight := fun hrun => by simp [hs] at hrun }

/-- A kill that is past the last URB leaves none. -/
theorem killDone (hinv : s.Inv) {who : Killer} (h : s.holder = .kill who (2 * s.chip.nurbs)) :
    Inv { s with holder := if who = .work then .clear else .free } := by
  have hs : s.chip.streaming = false := by
    have hfits := hinv.fits
    rwa [h] at hfits
  have hprimes (k : ℕ) : (if who = .work then Holder.clear else .free).primes k = false := by
    split <;> rfl
  exact
    { hinv with
      fits := by
        show (if who = .work then Holder.clear else .free).fits s.chip.streaming
        split
        · exact hs
        · trivial
      still := fun _ d i _ => by
        -- The kill has passed all the URBs of the card, and those beyond were never used.
        by_cases hi : i < s.chip.nurbs
        · refine hinv.still hs d i ?_
          have := slot_lt (d := d) hi
          simp only [h, Holder.kills, decide_eq_false_iff_not]
          omega
        · exact hinv.beyond d i (by have := hinv.urbs_active; omega)
      primed := fun d i _ hp => by
        have := (hprimes (slot d i)).symm.trans hp
        cases this
      sent := fun hrun => by simp [hs] at hrun
      inflight := fun hrun => by
        rcases hrun with hrun | hrun
        · simp [hs] at hrun
        · have : (if who = .work then Holder.clear else .free) = .start .live := hrun
          split at this <;> cases this }

/-- Where no URB is left, the number of URBs and the count of the bad ones are free. -/
theorem quiet (hinv : s.Inv) (hs : s.chip.streaming = false) (hkills : ∀ k, s.holder.kills k = false)
    {h : Holder} (hfree : h = .free) {c : Chip} (hlive : c.streaming = false)
    (hact : c.urbs_active ≤ c.nurbs) {a : Bool} :
    Inv { s with holder := h, active := a, chip := c } where
  urbs_active := hact
  beyond d i _ := hinv.dead hs hkills d i
  fits := by subst hfree; trivial
  still _ d i _ := hinv.dead hs hkills d i
  primed _ _ _ hp := by subst hfree; cases hp
  sent hrun := by simp [hlive] at hrun
  owes hrun := by simp [hlive] at hrun
  inflight hrun := by simp [hlive, hfree] at hrun

end Inv

end UrbQueue

/-- Each step keeps the invariant. -/
theorem QueueStep.inv {s t : UrbQueue} (hst : QueueStep s t) (hinv : s.Inv) : t.Inv := by
  cases hst with
  | handler d i h => exact hinv.handler h.handled
  -- A session only starts on a free mutex with nothing live, so there is nothing to check of the URBs.
  | prepare h hd hs =>
    exact hinv.goes hs (fun _ => by rw [h]; rfl) (fun _ => rfl) (by simp)
      (.inr ⟨by simp [h], fun _ _ => by rw [h]; rfl⟩) (fun _ => id)
  -- The failed start goes on to its own kill.
  | startFails h =>
    refine hinv.goes trivial (fun _ => ?_) (fun _ => rfl) (by simp) (.inl rfl) (fun _ => id)
    rcases h with h | ⟨k, h⟩ <;> rw [h] <;> rfl
  | startWritten h =>
    have hfits := hinv.fits
    rw [h] at hfits
    exact hinv.goes hfits (fun _ => by rw [h]; rfl) (fun _ => rfl) (by simp)
      (.inr ⟨by simp [h], fun _ _ => by rw [h]; rfl⟩) (fun _ => id)
  | startFill h => exact hinv.startFill h
  -- The stages of the start each say more of the URBs than the one before.
  | startCount h => exact hinv.startMarks h (.inl rfl) (.inl rfl) rfl rfl rfl (fun hq => nomatch hq)
  | startInflight h => exact hinv.startMarks h (.inr rfl) (.inr rfl) rfl rfl rfl (fun _ => rfl)
  | startLive h => exact hinv.startLive h
  | startSubmit d i h hi => exact hinv.startSubmit h hi
  | startDone h =>
    refine hinv.goes trivial (fun _ => by rw [h]; rfl) (fun _ => rfl) (by simp)
      (.inr ⟨by simp [h], fun k hk => ?_⟩) (fun _ => id)
    -- All the slots of the session have been submitted.
    rw [h]
    exact decide_eq_false (Nat.not_le.mpr hk)
  | stop h hs =>
    exact hinv.goes trivial (fun _ => by rw [h]; rfl) (fun _ => rfl) (by simp)
      (.inr ⟨by simp [h], fun _ _ => by rw [h]; rfl⟩) (fun _ => id)
  | killMark h => exact hinv.killMark _
  | unlink d i h hq => exact hinv.unlink h d i
  | killUrb d i h hi hd => exact hinv.killUrb h hd
  | killDone h => exact hinv.killDone h
  -- Another number of URBs is set while none is in use.
  | @geometry n _ h hs hn =>
    have hn' : ({ s.chip with urbs_active := n } : Chip).urbs_active ≤ s.chip.nurbs := hn
    exact hinv.quiet hs (fun _ => by rw [h]; rfl) h (c := { s.chip with urbs_active := n }) hs hn'
  -- Once the card is shut down, a URB that stopped owes nothing.
  | shutdown =>
    exact { hinv with owes := fun hs d i hi => (hinv.owes hs d i hi).mono id fun _ _ => .inl rfl }
  | workBegin hp ha => exact hinv.calls fun _ _ => .inr rfl
  | workLock h ha =>
    exact hinv.goes trivial (fun _ => by rw [h]; rfl) (fun _ => rfl) (by simp)
      (.inr ⟨by simp [h], fun _ _ => by rw [h]; rfl⟩) (fun _ => id)
  | workTest h hd =>
    exact hinv.goes trivial (fun _ => by rw [h]; rfl) (fun _ => rfl) (by simp)
      (.inr ⟨by simp [h], fun _ _ => by rw [h]; rfl⟩) (fun _ => id)
  -- The work goes on to its kill, or has nothing to stop.
  | workStop h he =>
    refine hinv.goes ?_ (fun _ => by rw [h]; rfl) (fun _ => by split <;> rfl) (by split <;> simp)
      (.inr ⟨by simp [h], fun _ _ => by rw [h]; rfl⟩) (fun _ => id)
    split
    · trivial
    · next hs => exact Bool.eq_false_iff.mpr hs
  | workLeave h =>
    rcases h with ⟨h, hd⟩ | ⟨h, he⟩
    · exact hinv.goes trivial (fun _ => by rw [h]; rfl) (fun _ => rfl) (by simp)
        (.inr ⟨by simp [h], fun _ _ => by rw [h]; rfl⟩) (fun _ _ => .inl hd)
    · -- A count below the limit: no URB has left the queue, and the work owes nothing.
      exact hinv.goes trivial (fun _ => by rw [h]; rfl) (fun _ => rfl) (by simp)
        (.inr ⟨by simp [h], fun _ _ => by rw [h]; rfl⟩) (fun hstop => absurd hstop (by omega))
  | workClear h =>
    have hfits := hinv.fits
    rw [h] at hfits
    exact hinv.quiet hfits (fun _ => by rw [h]; rfl) rfl (c := { s.chip with urb_err := 0 }) hfits
      hinv.urbs_active
  -- The core only cancels the work on a card that is shut down, or with the session stopped.
  | cancel hs ha =>
    refine hinv.calls fun hrun _ => .inl ?_
    rcases hs with hd | hs
    · exact hd
    · simp [hs] at hrun

/-- A state in which no session runs has the invariant. -/
theorem FreshQueue.inv {s : UrbQueue} (h : FreshQueue s) : s.Inv where
  urbs_active := h.urbs_active
  beyond d i _ := by rw [h.urb]; rfl
  fits := by rw [h.holder]; trivial
  still _ d i _ := by rw [h.urb]; rfl
  primed _ _ _ hp := by simp [h.holder, Holder.primes] at hp
  sent hs := by simp [h.streaming] at hs
  owes hs := by simp [h.streaming] at hs
  inflight hs := by simp [h.streaming, h.holder] at hs

/-- Every state that the steps lead to has the invariant. -/
theorem QueueReachable.inv {s : UrbQueue} (h : QueueReachable s) : s.Inv := by
  obtain ⟨s₀, hfresh, hrun⟩ := h
  induction hrun with
  | refl => exact hfresh.inv
  | tail _ hst ih => exact hst.inv ih

/-! ## The queue never shrinks silently -/

/-- A step from a session that is not killed does not take the count down from `BF_URB_ERR_STOP`. -/
theorem QueueStep.stays {s t : UrbQueue} (hst : QueueStep s t) (hinv : s.Inv) (hk : ¬ s.Killed)
    (hstop : BF_URB_ERR_STOP ≤ s.chip.urb_err) : BF_URB_ERR_STOP ≤ t.chip.urb_err := by
  cases hst with
  | handler d i h => exact h.handled.stop hstop
  | startCount h =>
    have hfits := hinv.fits
    rw [h] at hfits
    exact absurd ⟨hfits, hinv.dead hfits fun _ => by rw [h]; rfl⟩ hk
  | workClear h =>
    have hfits := hinv.fits
    rw [h] at hfits
    exact absurd ⟨hfits, hinv.dead hfits fun _ => by rw [h]; rfl⟩ hk
  | _ => exact hstop

/-- The states that a run leads to before it has killed the session. -/
inductive Unkilled (s : UrbQueue) : UrbQueue → Prop
  | refl : Unkilled s s
  | step {t u : UrbQueue} (h : Unkilled s t) (hst : QueueStep t u) (hk : ¬ u.Killed) : Unkilled s u

/-- A run that has not killed the session leaves the count at `BF_URB_ERR_STOP`. -/
theorem Unkilled.stop {s t : UrbQueue} (h : Unkilled s t) (hinv : s.Inv) (hk : ¬ s.Killed)
    (hstop : BF_URB_ERR_STOP ≤ s.chip.urb_err) :
    t.Inv ∧ ¬ t.Killed ∧ BF_URB_ERR_STOP ≤ t.chip.urb_err := by
  induction h with
  | refl => exact ⟨hinv, hk, hstop⟩
  | step _ hst hnk ih =>
    obtain ⟨hinv', hk', hstop'⟩ := ih
    exact ⟨hst.inv hinv', hnk, hst.stays hinv' hk' hstop'⟩

/-- When a session that is up has fewer URBs of a direction queued or being handled than it started
with, the count of the bad URBs has reached `BF_URB_ERR_STOP`, with the work that stops the session queued
or running, and it stays there until the session is killed. The OUT URBs in flight are counted right. -/
theorem queue_short_stops {s : UrbQueue} (h : QueueReachable s) (hup : s.Up)
    (hd : s.chip.shutdown = false) :
    ((∃ d, s.held d < s.chip.urbs_active) →
      BF_URB_ERR_STOP ≤ s.chip.urb_err ∧ (s.pending = true ∨ s.active = true) ∧
        ∀ t, Unkilled s t → BF_URB_ERR_STOP ≤ t.chip.urb_err) ∧
      s.chip.out_inflight = s.chip.urbs_active - s.outGone := by
  have hinv := h.inv
  obtain ⟨hrun, hstart⟩ := hup
  constructor
  · rintro ⟨d, hlt⟩
    -- Some URB of the session is dead, and no start has it still to submit.
    obtain ⟨i, hi, hdead⟩ : ∃ i < s.chip.urbs_active, ¬ (s.urb d i).dead = false := by
      by_contra hno
      push Not at hno
      exact hlt.ne (Nat.count_iff_forall.mpr hno)
    have hidle : s.urb d i = .idle := by
      have hsent := hinv.sent hrun d i hi
      have hnone : ¬ (s.holder.primes (slot d i) = true ∨ s.holder = .mark .start) := by
        rintro (hp | hm)
        · have := Holder.starting_of_primes hp
          simp [hstart] at this
        · simp [hm, Holder.starting] at hstart
      cases ha : s.urb d i with
      | idle => rfl
      | filled => exact absurd (hsent ha) hnone
      | _ => simp [ha, UrbAt.dead] at hdead
    have howes := hinv.owes hrun d i hi
    rw [hidle] at howes
    obtain ⟨hstop, hcalled⟩ := howes
    refine ⟨hstop, ?_, fun t ht => (ht.stop hinv (fun hk => ?_) hstop).2.2⟩
    · simpa [hd] using hcalled
    · simp [hk.1] at hrun
  · have := hinv.inflight (.inl hrun)
    omega

/-- A session of two URBs in each direction, whose first IN URB was good but could not be resubmitted. -/
def shortQueue : UrbQueue where
  chip := { nurbs := 2, urbs_active := 2, streaming := true, urb_err := 3, out_inflight := 2 }
  pending := true
  urb d i := if i < 2 ∧ ¬ (d = .capture ∧ i = 0) then .queued else .idle

/-- The run to `shortQueue`. -/
theorem shortQueue_reachable : QueueReachable shortQueue := by
  let s₀ : UrbQueue := { chip := { nurbs := 2, urbs_active := 2, urb_err := 7 } }
  refine ⟨s₀, ⟨rfl, rfl, fun _ _ => rfl, le_rfl⟩, ?_⟩
  -- The start goes through its stages, with every URB filled and none submitted.
  have hstart := (((((Relation.ReflTransGen.refl (r := QueueStep) (a := s₀)).tail
    (.prepare rfl rfl rfl)).tail (.startWritten rfl)).tail (.startFill rfl)).tail
    (.startCount rfl)).tail (.startInflight rfl)
  -- The session is live, and the four URBs are submitted in the order of the loop.
  have hlive := (((((hstart.tail (.startLive rfl)).tail (.startSubmit .capture 0 rfl (by decide))).tail
    (.startSubmit .playback 0 rfl (by decide))).tail
    (.startSubmit .capture 1 rfl (by decide))).tail
    (.startSubmit .playback 1 rfl (by decide))).tail (.startDone rfl)
  -- A capture URB completes and is read.
  have hgood := (((hlive.tail (.handler .capture 0 (.good _ _))).tail
    (.handler .capture 0 (.read _ _))).tail (.handler .capture 0 (.kept (.inl rfl) _ _))).tail
    (.handler .capture 0 (.audio _ _))
  -- Its submission fails, and the work is called while the other URBs stay queued.
  have hfailed := ((((hgood.tail (.handler .capture 0 (.live rfl _))).tail
    (.handler .capture 0 (.refused _ _))).tail (.handler .capture 0 (.failed _ _))).tail
    (.handler .capture 0 (.failedStop _ _)))
  convert hfailed using 1
  unfold shortQueue
  congr 1
  -- The URBs of both directions are as the run left them, one by one.
  funext d i
  clear hstart hlive hgood hfailed
  match d, i with
  | .playback, 0 => rfl
  | .playback, 1 => rfl
  | .capture, 0 => rfl
  | .capture, 1 => rfl
  | .playback, i + 2 => rfl
  | .capture, i + 2 => rfl

/-- The first IN URB has left that session: the count is up, and the work is queued. -/
theorem queue_short_stops_lost :
    shortQueue.held .capture = 1 ∧ BF_URB_ERR_STOP ≤ shortQueue.chip.urb_err ∧
      shortQueue.pending = true ∧ shortQueue.chip.out_inflight = 2 - shortQueue.outGone := by
  have hheld : shortQueue.held .capture = 1 := by decide
  obtain ⟨hshort, hout⟩ := queue_short_stops shortQueue_reachable ⟨rfl, rfl⟩ rfl
  obtain ⟨hstop, -, -⟩ := hshort ⟨.capture, by rw [hheld]; decide⟩
  exact ⟨hheld, hstop, rfl, hout⟩

end BabyfacePro
