import BabyfacePro.Core.Resync
import BabyfacePro.Panel.Counter

/-!
# The levels of the OUT wheel

The wheel moves both sides of an output by the same step, down to mute and up to +6 dB, and keeps below
the floor how far the quieter side lies under the louder one. `panel_out_hdb` keeps that as an `s16`:
in the runs in which the wheel only turns outputs whose sides lie near enough, the levels stay in their
range and the image is kept (`out_wheel_levels`); `out_wheel_wraps` is a run that leads further.
-/

namespace BabyfacePro

/-! ## Clicks -/

/-- The level of the louder side. -/
def louder (db : ℤ × ℤ) : ℤ := max db.1 db.2

/-- Both sides, moved by the same amount. -/
def shifted (s : ℤ) (db : ℤ × ℤ) : ℤ × ℤ := (db.1 + s, db.2 + s)

/-- A shift after a shift is that by their sum. -/
theorem shifted_shifted (s t : ℤ) (db : ℤ × ℤ) : shifted t (shifted s db) = shifted (s + t) db := by
  unfold shifted
  exact Prod.ext (add_assoc _ _ _) (add_assoc _ _ _)

/-- A shift moves the louder side by as much. -/
theorem louder_shifted (s : ℤ) (db : ℤ × ℤ) : louder (shifted s db) = louder db + s :=
  (max_add_add_right db.1 db.2 s)

/-- The range of the louder side, from mute to +6 dB. -/
def InRange (level : ℤ) : Prop := BF_OUT_WHEEL_MUTED ≤ level ∧ level ≤ 12

/-- A move of both sides by `s` is one in the direction of `dir`, which leaves the louder side in its
range. -/
structure MovesBoth (dir : ℤ) (db db' : ℤ × ℤ) : Prop where
  both : ∃ s, db' = shifted s db ∧ (0 ≤ dir → 0 ≤ s) ∧ (dir ≤ 0 → s ≤ 0)
  range : InRange (louder db')

/-- No move. -/
theorem MovesBoth.refl {dir : ℤ} {db : ℤ × ℤ} (h : InRange (louder db)) : MovesBoth dir db db :=
  ⟨⟨0, by simp [shifted], fun _ => le_refl 0, fun _ => le_refl 0⟩, h⟩

/-- A move after a move in the same direction. -/
theorem MovesBoth.trans {dir : ℤ} {db db₁ db' : ℤ × ℤ} (h : MovesBoth dir db db₁)
    (h' : MovesBoth dir db₁ db') : MovesBoth dir db db' := by
  obtain ⟨⟨s, rfl, hup, hdown⟩, -⟩ := h
  obtain ⟨⟨t, rfl, hup', hdown'⟩, hrange⟩ := h'
  refine ⟨⟨s + t, shifted_shifted s t db, fun hd => ?_, fun hd => ?_⟩, hrange⟩
  · have hs := hup hd
    have ht := hup' hd
    omega
  · have hs := hdown hd
    have ht := hdown' hd
    omega

/-- How far a click moves both sides, from the level of the louder one. -/
def clickShift (level step : ℤ) : ℤ :=
  if level < BF_OUT_WHEEL_FLOOR ∧ step < 0 then 0
  else if level < BF_OUT_WHEEL_FLOOR then BF_OUT_WHEEL_FLOOR - level + step
  else if level + step < BF_OUT_WHEEL_FLOOR then BF_OUT_WHEEL_MUTED - level
  else if level + step > 12 then 12 - level
  else step

/-- A click shifts both sides, and stops the louder one at the end of the range. -/
theorem bfOutWheelClick_eq (db : ℤ × ℤ) (step : ℤ) :
    bfOutWheelClick db step = shifted (clickShift (louder db) step) db := by
  unfold bfOutWheelClick clickShift louder
  dsimp only
  split
  · simp [shifted]
  · rfl

/-- A click goes in its direction, and stops at both ends of the range. -/
theorem clickShift_spec {level step : ℤ} (h : InRange level) (hne : step ≠ 0) (hstep : step ≤ 12) :
    InRange (level + clickShift level step) ∧ (0 ≤ step → 0 ≤ clickShift level step) ∧
      (step ≤ 0 → clickShift level step ≤ 0) := by
  unfold InRange clickShift BF_OUT_WHEEL_MUTED BF_OUT_WHEEL_FLOOR at *
  split_ifs <;> omega

/-- One click moves both sides alike. -/
theorem bfOutWheelClick_moves {db : ℤ × ℤ} (h : InRange (louder db)) {step : ℤ} (hne : step ≠ 0)
    (hstep : step ≤ 12) : MovesBoth step db (bfOutWheelClick db step) := by
  obtain ⟨hrange, hup, hdown⟩ := clickShift_spec h hne hstep
  rw [bfOutWheelClick_eq]
  refine ⟨⟨_, rfl, hup, hdown⟩, ?_⟩
  rw [louder_shifted]
  exact hrange

/-- The clicks of a turn in the direction `dir` do the same. -/
theorem outWheelClicks_moves {dir : ℤ} (hdir : dir = 1 ∨ dir = -1) (n : ℕ) (fast : Bool) {db : ℤ × ℤ}
    (h : InRange (louder db)) : MovesBoth dir db (outWheelClicks dir fast n db) := by
  induction n generalizing fast db with
  | zero => exact .refl h
  | succ n ih =>
    obtain ⟨hlow, hhigh⟩ := bfOutWheelStep_mem (max (max db.1 db.2) BF_OUT_WHEEL_FLOOR)
    rw [outWheelClicks]
    generalize bfOutWheelStep (max (max db.1 db.2) BF_OUT_WHEEL_FLOOR) = k at hlow hhigh ⊢
    -- The step has the direction of the turn, at most twice the size of six.
    have hclick : ∀ step : ℤ, step = dir * k ∨ step = dir * k * 2 →
        MovesBoth dir db (bfOutWheelClick db step) := by
      intro step hstep
      obtain ⟨⟨s, heq, hup, hdown⟩, hrange⟩ := bfOutWheelClick_moves h
        (show step ≠ 0 by rcases hdir with rfl | rfl <;> omega)
        (by rcases hdir with rfl | rfl <;> omega)
      exact ⟨⟨s, heq, fun _ => hup (by rcases hdir with rfl | rfl <;> omega),
        fun _ => hdown (by rcases hdir with rfl | rfl <;> omega)⟩, hrange⟩
    have hfirst := hclick (if fast then dir * k * 2 else dir * k) (by split <;> simp)
    exact hfirst.trans (ih true hfirst.range)

/-- Every click down lowers the louder side, until it is muted. -/
theorem outWheelClicks_down (n : ℕ) (fast : Bool) {db : ℤ × ℤ} (h : InRange (louder db)) :
    louder (outWheelClicks (-1) fast n db) ≤ max (louder db - n) BF_OUT_WHEEL_MUTED := by
  -- The induction is on the clicks; after the first one the wheel may be fast.
  induction n generalizing fast db with
  | zero => exact (le_max_left _ _).trans' (by simp [outWheelClicks])
  | succ n ih =>
    obtain ⟨hlow, hhigh⟩ := bfOutWheelStep_mem (max (max db.1 db.2) BF_OUT_WHEEL_FLOOR)
    rw [outWheelClicks]
    generalize bfOutWheelStep (max (max db.1 db.2) BF_OUT_WHEEL_FLOOR) = k at hlow hhigh ⊢
    -- A click of a negative step lowers the louder side by one at least.
    have hclick : ∀ step : ℤ, step ≤ -1 → InRange (louder (bfOutWheelClick db step)) ∧
        louder (bfOutWheelClick db step) ≤ max (louder db - 1) BF_OUT_WHEEL_MUTED := by
      intro step hstep
      rw [bfOutWheelClick_eq, louder_shifted]
      refine ⟨(clickShift_spec h (by omega) (by omega)).1, ?_⟩
      obtain ⟨hmuted, htop⟩ := h
      unfold clickShift BF_OUT_WHEEL_MUTED BF_OUT_WHEEL_FLOOR at *
      split_ifs <;> omega
    obtain ⟨hrange, hfirst⟩ := hclick (if fast then -1 * k * 2 else -1 * k) (by split <;> omega)
    have hrest := ih true hrange
    push_cast
    omega

/-! ## The levels of a card -/

/-- The wheel's levels of the two sides of an output. -/
def outLevels (c : Chip) (out : Out) : ℤ × ℤ := (bfOutWheelLevel c out 0, bfOutWheelLevel c out 1)

/-- The tracked levels of the two sides of an output. -/
def trackedLevels (c : Chip) (out : Out) : ℤ × ℤ := (c.panel_out_hdb out 0, c.panel_out_hdb out 1)

/-- How far the left side of an output is over the right one. -/
def image (c : Chip) (out : Out) : ℤ := (outLevels c out).1 - (outLevels c out).2

/-- What holds of the wheel's levels: the masters are steps of their control, the louder tracked side is
within the range of the wheel, and the masters that the wheel wrote are the steps of its levels. -/
structure WheelLevels (c : Chip) : Prop where
  steps : StepsOk c
  range : ∀ out, InRange (louder (trackedLevels c out))
  /-- They are kept as `s16`. -/
  fits : ∀ out side, -32768 ≤ c.panel_out_hdb out side
  wrote : ∀ out, (∀ side, c.panel_master_last out side = 0xffff) ∨
    ∀ side, c.panel_master_last out side = wheelStep (c.panel_out_hdb out side)

section Levels

variable {c : Chip} {out : Out}

/-- What holds of both sides. -/
theorem side_cases {P : Side → Prop} (h₀ : P 0) (h₁ : P 1) (side : Side) : P side := by
  match side with
  | 0 => exact h₀
  | 1 => exact h₁

/-- A side that nobody else has moved is at the level that the wheel left. -/
theorem bfOutWheelLevel_tracked {side : Side} (h : c.master out side = c.panel_master_last out side) :
    bfOutWheelLevel c out side = c.panel_out_hdb out side := if_pos h

/-- A master of the range is none that marks the wheel's start. -/
theorem StepsOk.ne_start (h : StepsOk c) (out : Out) (side : Side) : c.master out side ≠ 0xffff :=
  fun he => by
    have hstep := h out side
    rw [he] at hstep
    exact absurd hstep (by decide)

/-- The level of a master that the wheel did not write. -/
theorem wheelStep_of_master {step : U16} (h : (step.toNat : ℤ) ≤ BF_MASTER_STEP_MAX) :
    wheelStep (if step = 0 then BF_OUT_WHEEL_MUTED else step.toNat - BF_MASTER_STEP_0DB) = step ∧
      InRange (if step = 0 then BF_OUT_WHEEL_MUTED else step.toNat - BF_MASTER_STEP_0DB) := by
  unfold InRange BF_MASTER_STEP_MAX BF_OUT_WHEEL_MUTED BF_OUT_WHEEL_FLOOR BF_MASTER_STEP_0DB at *
  split
  · rename_i hzero
    rw [hzero]
    decide
  · rename_i hpos
    have hne : step.toNat ≠ 0 := fun hz => hpos (BitVec.eq_of_toNat_eq hz)
    refine ⟨BitVec.eq_of_toNat_eq ?_, by omega, by omega⟩
    have hval := @wheelStep_toNat (step.toNat - 181) (by omega)
    unfold BF_OUT_WHEEL_FLOOR BF_MASTER_STEP_0DB at hval
    rw [if_neg (by omega)] at hval
    omega

/-- The level of one side: at most +6 dB, that of its master, and either tracked or at least muted. -/
theorem WheelLevels.side (h : WheelLevels c) (out : Out) (side : Side) :
    wheelStep (bfOutWheelLevel c out side) = c.master out side ∧ bfOutWheelLevel c out side ≤ 12 ∧
      (bfOutWheelLevel c out side = c.panel_out_hdb out side ∨
        BF_OUT_WHEEL_MUTED ≤ bfOutWheelLevel c out side) := by
  unfold bfOutWheelLevel
  dsimp only
  split
  · rename_i htracked
    have hwrote := (h.wrote out).resolve_left fun hstart =>
      h.steps.ne_start out side (htracked.trans (hstart side))
    refine ⟨(hwrote side).symm.trans htracked.symm, ?_, .inl rfl⟩
    have htop := (h.range out).2
    unfold louder trackedLevels at htop
    exact side_cases (P := fun side => c.panel_out_hdb out side ≤ 12) ((le_max_left _ _).trans htop)
      ((le_max_right _ _).trans htop) side
  · obtain ⟨hstep, hlow, hhigh⟩ := wheelStep_of_master (h.steps out side)
    exact ⟨hstep, hhigh, .inr hlow⟩

/-- The louder side is within the range of the wheel, whether the wheel wrote the masters or not. -/
theorem WheelLevels.louder_range (h : WheelLevels c) (out : Out) : InRange (louder (outLevels c out)) := by
  obtain ⟨-, hleft, hl⟩ := h.side out 0
  obtain ⟨-, hright, hr⟩ := h.side out 1
  have hlow := (h.range out).1
  unfold InRange louder outLevels
  unfold louder trackedLevels at hlow
  omega

/-- The level of a side is within 16 bits. -/
theorem WheelLevels.fits_level (h : WheelLevels c) (out : Out) (side : Side) :
    -32768 ≤ bfOutWheelLevel c out side := by
  obtain ⟨-, -, htracked | hmuted⟩ := h.side out side
  · rw [htracked]
    exact h.fits out side
  · exact hmuted.trans' (by decide)

end Levels

/-! ## A turn of the OUT wheel -/

/-- The levels of the two sides that the wheel works on. -/
def Chip.levels (c : Chip) : (Out → Side → U16) × (Out → Side → U16) × (Out → Side → ℤ) :=
  (c.master, c.panel_master_last, c.panel_out_hdb)

/-- The sides of the output that the wheel would turn lie near enough: muted, the louder side lets the
other one fall no deeper than an `s16` reaches. -/
def NearSides (c : Chip) : Prop :=
  c.muted (bfPanelOutPair c) = false → |image c (bfPanelOutPair c)| ≤ 32587

/-- Whether the sides are near is a test of the cache. -/
instance (c : Chip) : Decidable (NearSides c) := inferInstanceAs (Decidable (_ → _))

/-- A new master and new levels of one output. -/
def relevel (out : Out) (db : ℤ × ℤ) (c : Chip) : Chip :=
  { c with
    master := Function.update c.master out ![wheelStep db.1, wheelStep db.2]
    panel_master_last := Function.update c.panel_master_last out ![wheelStep db.1, wheelStep db.2]
    panel_out_hdb := Function.update c.panel_out_hdb out ![toInt16 db.1, toInt16 db.2] }

/-- A turn of the OUT wheel leaves a muted output as it is, and writes new levels otherwise. -/
theorem bfPanelOutWheel_levels (delta now : ℤ) (w : World) :
    (bfPanelOutWheel delta now w).2.chip.levels =
      (if w.chip.muted (bfPanelOutPair w.chip) then w.chip
        else relevel (bfPanelOutPair w.chip) (outWheelLevels w.chip delta (clickTime w.chip now))
          w.chip).levels := by
  unfold bfPanelOutWheel
  rw [Bus.M.bind_of_ok (Bus.M.get_run w), Bus.M.ite_run]
  split
  -- Muted, the mute is written over and no level changes.
  · obtain ⟨w', vs, hrun, hc, -⟩ :=
      post8_moves (bfPanelOutPair w.chip) BF_MASTER_MUTE BF_MASTER_MUTE w
    unfold bfPanelRemute
    have hlevels := congrArg Chip.levels hc
    rw [hrun]
    exact hlevels
  -- Unmuted, the new levels are cached with their steps and noted.
  · generalize outWheelLevels w.chip delta (clickTime w.chip now) = db
    have htrack : Moves (Bus.M.modify (trackWheel (bfPanelOutPair w.chip) db delta
        (clickTime w.chip now))) (trackWheel (bfPanelOutPair w.chip) db delta (clickTime w.chip now))
        (fun _ => []) fun _ => [] := Bus.Does.modify fun _ => rfl
    obtain ⟨w', vs, hrun, hc, -⟩ := ((bfPanelOutWheelWrite_moves (bfPanelOutPair w.chip) (wheelStep db.1)
      (wheelStep db.2)).seq htrack fun _ => rfl) w
    have hlevels := congrArg Chip.levels hc
    rw [hrun]
    exact hlevels

/-- What a turn by `delta` does to the levels, seen by the wheel, and to the cached masters. -/
structure OutTurned (delta : ℤ) (c c' : Chip) : Prop where
  image : ∀ out, image c' out = BabyfacePro.image c out
  up : 0 ≤ delta → ∀ out side, bfOutWheelLevel c out side ≤ bfOutWheelLevel c' out side ∧
    (c.master out side).toNat ≤ (c'.master out side).toNat
  down : delta ≤ 0 → ∀ out side, bfOutWheelLevel c' out side ≤ bfOutWheelLevel c out side ∧
    (c'.master out side).toNat ≤ (c.master out side).toNat

section Relevel

variable {c : Chip} {out : Out} {db : ℤ × ℤ}

/-- The step and the level that a turn leaves on its output. -/
theorem relevel_self (out : Out) (db : ℤ × ℤ) (c : Chip) (side : Side) :
    (relevel out db c).master out side = wheelStep (![db.1, db.2] side) ∧
      (relevel out db c).panel_master_last out side = wheelStep (![db.1, db.2] side) ∧
      (relevel out db c).panel_out_hdb out side = toInt16 (![db.1, db.2] side) := by
  simp only [relevel, Function.update_self]
  exact side_cases (P := fun side => ![wheelStep db.1, wheelStep db.2] side = wheelStep (![db.1, db.2] side) ∧
    ![wheelStep db.1, wheelStep db.2] side = wheelStep (![db.1, db.2] side) ∧
    ![toInt16 db.1, toInt16 db.2] side = toInt16 (![db.1, db.2] side)) ⟨rfl, rfl, rfl⟩ ⟨rfl, rfl, rfl⟩ side

/-- It leaves the other outputs alone. -/
theorem relevel_ne {o : Out} (h : o ≠ out) : (relevel out db c).master o = c.master o ∧
    (relevel out db c).panel_master_last o = c.panel_master_last o ∧
    (relevel out db c).panel_out_hdb o = c.panel_out_hdb o := by
  simp only [relevel, Function.update_of_ne h, and_self]

/-- A level within 16 bits is stored as it is. -/
theorem toInt16_of_fits {v : ℤ} (hlow : -32768 ≤ v) (hhigh : v ≤ 12) : toInt16 v = v :=
  Int.bmod_eq_of_le (by omega) (by omega)

/-- A level that does not fit wraps to one far above the range. -/
theorem toInt16_wraps {v : ℤ} (hlow : -65000 ≤ v) (hhigh : v < -32768) : 12 < toInt16 v := by
  have hwrap : toInt16 v = v + 65536 := by
    unfold toInt16
    rw [← Int.add_bmod_right v (2 ^ 16)]
    exact Int.bmod_eq_of_le (by omega) (by omega)
  omega

/-- The levels decide what the wheel sees. -/
theorem bfOutWheelLevel_congr {c d : Chip} {out : Out} {side : Side}
    (hmaster : d.master out side = c.master out side)
    (hlast : d.panel_master_last out side = c.panel_master_last out side)
    (hhdb : d.panel_out_hdb out side = c.panel_out_hdb out side) :
    bfOutWheelLevel d out side = bfOutWheelLevel c out side := by
  unfold bfOutWheelLevel
  rw [hmaster, hlast, hhdb]

/-- Levels that fit are those that the wheel sees next. -/
theorem outLevels_relevel (hl : -32768 ≤ db.1) (hr : -32768 ≤ db.2) (hrange : InRange (louder db)) :
    outLevels (relevel out db c) out = db ∧ trackedLevels (relevel out db c) out = db := by
  have hhigh : db.1 ≤ 12 ∧ db.2 ≤ 12 := max_le_iff.mp hrange.2
  obtain ⟨hmaster₀, hlast₀, hhdb₀⟩ := relevel_self out db c 0
  obtain ⟨hmaster₁, hlast₁, hhdb₁⟩ := relevel_self out db c 1
  have htracked : trackedLevels (relevel out db c) out = db := by
    unfold trackedLevels
    rw [hhdb₀, hhdb₁]
    exact Prod.ext (toInt16_of_fits hl hhigh.1) (toInt16_of_fits hr hhigh.2)
  have hseen : outLevels (relevel out db c) out = trackedLevels (relevel out db c) out :=
    Prod.ext (bfOutWheelLevel_tracked (hmaster₀.trans hlast₀.symm))
      (bfOutWheelLevel_tracked (hmaster₁.trans hlast₁.symm))
  exact ⟨hseen.trans htracked, htracked⟩

/-- The level of another output stays. -/
theorem bfOutWheelLevel_relevel_ne {o : Out} (h : o ≠ out) (side : Side) :
    bfOutWheelLevel (relevel out db c) o side = bfOutWheelLevel c o side := by
  obtain ⟨hmaster, hlast, hhdb⟩ := @relevel_ne c out db o h
  exact bfOutWheelLevel_congr (congrFun hmaster side) (congrFun hlast side) (congrFun hhdb side)

/-- New levels that fit keep what holds of the levels. -/
theorem WheelLevels.relevel (h : WheelLevels c) (hl : -32768 ≤ db.1) (hr : -32768 ≤ db.2)
    (hrange : InRange (louder db)) : WheelLevels (relevel out db c) := by
  have hhigh : db.1 ≤ 12 ∧ db.2 ≤ 12 := max_le_iff.mp hrange.2
  -- Levels that fit are kept as they are in the 16 bits of `panel_out_hdb`.
  have hfits : ∀ side, toInt16 (![db.1, db.2] side) = ![db.1, db.2] side ∧ -32768 ≤ ![db.1, db.2] side :=
    side_cases (P := fun side => toInt16 (![db.1, db.2] side) = ![db.1, db.2] side ∧
      -32768 ≤ ![db.1, db.2] side) ⟨toInt16_of_fits hl hhigh.1, hl⟩ ⟨toInt16_of_fits hr hhigh.2, hr⟩
  refine ⟨cacheMaster_stepsOk h.steps out (wheelStep_le hhigh.1) (wheelStep_le hhigh.2), fun o => ?_,
    fun o side => ?_, fun o => ?_⟩
  -- On the output that is turned the new levels count, on the others what was there.
  · by_cases ho : o = out
    · rw [ho, (outLevels_relevel hl hr hrange).2]
      exact hrange
    · unfold trackedLevels
      rw [(relevel_ne ho).2.2]
      exact h.range o
  · by_cases ho : o = out
    · rw [ho, (relevel_self out db c side).2.2, (hfits side).1]
      exact (hfits side).2
    · rw [(relevel_ne ho).2.2]
      exact h.fits o side
  · by_cases ho : o = out
    · refine .inr fun side => ?_
      obtain ⟨-, hlast, hhdb⟩ := relevel_self out db c side
      rw [ho, hlast, hhdb, (hfits side).1]
    · rw [(relevel_ne ho).2.1, (relevel_ne ho).2.2]
      exact h.wrote o

end Relevel

/-- The levels decide what holds of them. -/
theorem WheelLevels.congr {c d : Chip} (h : WheelLevels c) (hd : d.levels = c.levels) : WheelLevels d := by
  simp only [Chip.levels, Prod.mk.injEq] at hd
  obtain ⟨hmaster, hlast, hhdb⟩ := hd
  refine ⟨fun out side => ?_, fun out => ?_, fun out side => ?_, fun out => ?_⟩
  · rw [hmaster]
    exact h.steps out side
  · unfold trackedLevels
    rw [hhdb]
    exact h.range out
  · rw [hhdb]
    exact h.fits out side
  · rw [hlast, hhdb]
    exact h.wrote out

/-- No click. -/
theorem OutTurned.refl (delta : ℤ) (c : Chip) : OutTurned delta c c :=
  ⟨fun _ => rfl, fun _ _ _ => ⟨le_refl _, le_refl _⟩, fun _ _ _ => ⟨le_refl _, le_refl _⟩⟩

/-- The clicks depend on the levels only. -/
theorem OutTurned.congr {delta : ℤ} {c c' d : Chip} (h : OutTurned delta c c')
    (hd : d.levels = c'.levels) : OutTurned delta c d := by
  simp only [Chip.levels, Prod.mk.injEq] at hd
  obtain ⟨hmaster, hlast, hhdb⟩ := hd
  have hlevel : ∀ out side, bfOutWheelLevel d out side = bfOutWheelLevel c' out side := fun out side =>
    bfOutWheelLevel_congr (by rw [hmaster]) (by rw [hlast]) (by rw [hhdb])
  refine ⟨fun out => ?_, fun hd out side => ?_, fun hd out side => ?_⟩
  · rw [← h.image out]
    unfold BabyfacePro.image outLevels
    rw [hlevel, hlevel]
  · rw [hlevel, hmaster]
    exact h.up hd out side
  · rw [hlevel, hmaster]
    exact h.down hd out side

/-- The step of a level rises with it. -/
theorem wheelStep_mono {a b : ℤ} (h : a ≤ b) (hb : b ≤ 12) :
    (wheelStep a).toNat ≤ (wheelStep b).toNat := by
  have ha' := wheelStep_toNat (h.trans hb)
  have hb' := wheelStep_toNat hb
  unfold BF_OUT_WHEEL_FLOOR BF_MASTER_STEP_0DB at *
  split at ha' <;> split at hb' <;> omega

/-- The wheel moves both sides of the output that it turns by the same amount. -/
theorem outWheelLevels_moves {c : Chip} (h : InRange (louder (outLevels c (bfPanelOutPair c))))
    (delta now : ℤ) : MovesBoth delta (outLevels c (bfPanelOutPair c)) (outWheelLevels c delta now) := by
  unfold outWheelLevels
  dsimp only
  rcases lt_trichotomy delta 0 with hneg | rfl | hpos
  · rw [if_neg (by omega)]
    obtain ⟨⟨s, heq, -, hdown⟩, hrange⟩ :=
      outWheelClicks_moves (.inr rfl) delta.natAbs _ h
    exact ⟨⟨s, heq, fun hd => by omega, fun _ => hdown (by decide)⟩, hrange⟩
  · exact .refl h
  · rw [if_pos hpos]
    obtain ⟨⟨s, heq, hup, -⟩, hrange⟩ :=
      outWheelClicks_moves (.inl rfl) delta.natAbs _ h
    exact ⟨⟨s, heq, fun _ => hup (by decide), fun hd => by omega⟩, hrange⟩

/-- New levels of an output, its sides moved alike, are a turn of the wheel. -/
theorem OutTurned.relevel {c : Chip} {out : Out} {db : ℤ × ℤ} {delta : ℤ} (h : WheelLevels c)
    (hmoves : MovesBoth delta (outLevels c out) db) (hl : -32768 ≤ db.1) (hr : -32768 ≤ db.2) :
    OutTurned delta c (relevel out db c) := by
  obtain ⟨⟨s, hs, hup, hdown⟩, hrange⟩ := hmoves
  have hseen := (@outLevels_relevel c out db hl hr hrange).1
  have hnew : WheelLevels (BabyfacePro.relevel out db c) := h.relevel hl hr hrange
  have hlevel : ∀ o side, bfOutWheelLevel (BabyfacePro.relevel out db c) o side =
      bfOutWheelLevel c o side + if o = out then s else 0 := fun o side => by
    by_cases ho : o = out
    · subst ho
      rw [if_pos rfl]
      rw [hs] at hseen
      exact side_cases (P := fun side => bfOutWheelLevel (BabyfacePro.relevel o db c) o side =
        bfOutWheelLevel c o side + s) (hs ▸ congrArg Prod.fst hseen) (hs ▸ congrArg Prod.snd hseen) side
    · rw [if_neg ho, add_zero]
      exact bfOutWheelLevel_relevel_ne ho side
  -- The masters are the steps of the levels, before and after.
  have hmaster (a b : Chip) (ha : WheelLevels a) (hb : WheelLevels b) (o : Out) (side : Side)
      (hle : bfOutWheelLevel a o side ≤ bfOutWheelLevel b o side) :
      (a.master o side).toNat ≤ (b.master o side).toNat := by
    rw [← (ha.side o side).1, ← (hb.side o side).1]
    exact wheelStep_mono hle (hb.side o side).2.1
  refine ⟨fun o => ?_, fun hd o side => ?_, fun hd o side => ?_⟩
  · unfold BabyfacePro.image outLevels
    rw [hlevel, hlevel]
    omega
  · have hle : bfOutWheelLevel c o side ≤ bfOutWheelLevel (BabyfacePro.relevel out db c) o side := by
      have hs := hup hd
      rw [hlevel]
      split <;> omega
    exact ⟨hle, hmaster _ _ h hnew o side hle⟩
  · have hle : bfOutWheelLevel (BabyfacePro.relevel out db c) o side ≤ bfOutWheelLevel c o side := by
      have hs := hdown hd
      rw [hlevel]
      split <;> omega
    exact ⟨hle, hmaster _ _ hnew h o side hle⟩

/-- Moved alike, near sides stay within an `s16`. -/
theorem MovesBoth.fits {dir : ℤ} {db db' : ℤ × ℤ} (h : MovesBoth dir db db')
    (hnear : |db.1 - db.2| ≤ 32587) : -32768 ≤ db'.1 ∧ -32768 ≤ db'.2 := by
  obtain ⟨⟨s, rfl, -, -⟩, hlow, -⟩ := h
  rw [abs_le] at hnear
  unfold louder shifted BF_OUT_WHEEL_MUTED BF_OUT_WHEEL_FLOOR at *
  dsimp only at hlow ⊢
  omega

section Turn

variable {w : World}

/-- A turn of an output whose sides lie near enough keeps what holds of the levels. -/
theorem bfPanelOutWheel_turned (h : WheelLevels w.chip) (hnear : NearSides w.chip) (delta now : ℤ) :
    WheelLevels (bfPanelOutWheel delta now w).2.chip ∧
      OutTurned delta w.chip (bfPanelOutWheel delta now w).2.chip := by
  have hlevels := bfPanelOutWheel_levels delta now w
  cases hmute : w.chip.muted (bfPanelOutPair w.chip) with
  | true =>
    rw [hmute, if_pos rfl] at hlevels
    exact ⟨h.congr hlevels, (OutTurned.refl delta w.chip).congr hlevels⟩
  | false =>
    rw [hmute, if_neg Bool.false_ne_true] at hlevels
    have hmoves := outWheelLevels_moves (h.louder_range _) delta (clickTime w.chip now)
    obtain ⟨hl, hr⟩ := hmoves.fits (hnear hmute)
    exact ⟨(h.relevel hl hr hmoves.range).congr hlevels, (OutTurned.relevel h hmoves hl hr).congr hlevels⟩

/-- Where the sides lie too far apart, a turn down to mute leaves the range of the levels. -/
theorem bfPanelOutWheel_wraps (h : WheelLevels w.chip) (hfar : ¬ NearSides w.chip) (now : ℤ) :
    12 < louder (trackedLevels (bfPanelOutWheel (-200) now w).2.chip (bfPanelOutPair w.chip)) := by
  unfold NearSides at hfar
  rw [Classical.not_imp, not_le] at hfar
  obtain ⟨hmute, hfar⟩ := hfar
  have hlevels := bfPanelOutWheel_levels (-200) now w
  rw [hmute, if_neg Bool.false_ne_true] at hlevels
  -- The louder side goes down to mute, and the quieter one by as much.
  have hdown : louder (outWheelLevels w.chip (-200) (clickTime w.chip now)) ≤
      max (louder (outLevels w.chip (bfPanelOutPair w.chip)) - 200) BF_OUT_WHEEL_MUTED := by
    unfold outWheelLevels
    exact outWheelClicks_down 200 _ (h.louder_range _)
  have hmoves := outWheelLevels_moves (h.louder_range _) (-200) (clickTime w.chip now)
  have hlow := (hmoves.range).1
  have hhigh := (h.louder_range (bfPanelOutPair w.chip)).2
  have hleft := h.fits_level (bfPanelOutPair w.chip) 0
  have hright := h.fits_level (bfPanelOutPair w.chip) 1
  -- From here on the levels of the turn are two numbers with these bounds.
  generalize outWheelLevels w.chip (-200) (clickTime w.chip now) = db at *
  obtain ⟨⟨s, hs, -, -⟩, -⟩ := hmoves
  have htracked : trackedLevels (bfPanelOutWheel (-200) now w).2.chip (bfPanelOutPair w.chip) =
      (toInt16 db.1, toInt16 db.2) := by
    have hhdb := congrArg (fun v => v.2.2 (bfPanelOutPair w.chip)) hlevels
    have hself := fun side => (relevel_self (bfPanelOutPair w.chip) db w.chip side).2.2
    unfold trackedLevels
    exact Prod.ext ((congrFun hhdb 0).trans (hself 0)) ((congrFun hhdb 1).trans (hself 1))
  rw [htracked]
  unfold image outLevels at hfar
  unfold louder outLevels at *
  unfold shifted at hs
  subst hs
  unfold BF_OUT_WHEEL_MUTED BF_OUT_WHEEL_FLOOR at *
  dsimp only at *
  -- The quieter side leaves the 16 bits, and shows again at the top.
  rcases lt_abs.mp hfar with hgap | hgap
  · exact lt_max_of_lt_right (toInt16_wraps (by omega) (by omega))
  · exact lt_max_of_lt_left (toInt16_wraps (by omega) (by omega))

end Turn

/-! ## A turn of the balance wheel -/

/-- The masters alone are new, and within their range. -/
theorem WheelLevels.of_masters {c d : Chip} (h : WheelLevels c) (hsteps : StepsOk d)
    (hlast : d.panel_master_last = c.panel_master_last) (hhdb : d.panel_out_hdb = c.panel_out_hdb) :
    WheelLevels d := by
  refine ⟨hsteps, fun out => ?_, fun out side => ?_, fun out => ?_⟩
  · unfold trackedLevels
    rw [hhdb]
    exact h.range out
  · rw [hhdb]
    exact h.fits out side
  · rw [hlast, hhdb]
    exact h.wrote out

/-- What a turn of the balance wheel does to the masters of the output `out`: the louder side keeps its
level, and the other one is between mute and that level; the other outputs stay. -/
structure BalanceTurned (out : Out) (c c' : Chip) : Prop where
  louder : louder (balanceLevels c' out) = BabyfacePro.louder (balanceLevels c out)
  quieter : BF_OUT_WHEEL_MUTED ≤ min (balanceLevels c' out).1 (balanceLevels c' out).2
  others : ∀ o, o ≠ out → c'.master o = c.master o

/-- The louder side stays, and the other one falls no deeper than mute. -/
theorem balanceTurn_spec {db : ℤ × ℤ} (h : BF_OUT_WHEEL_FLOOR ≤ louder db) (delta : ℤ) :
    louder (balanceTurn db delta) = louder db ∧
      BF_OUT_WHEEL_MUTED ≤ min (balanceTurn db delta).1 (balanceTurn db delta).2 := by
  unfold balanceTurn
  generalize balanceClicks (if delta > 0 then 1 else -1) delta.natAbs (db.2 - db.1) = bal
  unfold louder BF_OUT_WHEEL_MUTED BF_OUT_WHEEL_FLOOR at *
  generalize max db.1 db.2 = top at h ⊢
  dsimp only
  constructor <;> split <;> split <;> omega

/-- The level of a master's step. -/
theorem level_of_wheelStep {db : ℤ} (hlow : BF_OUT_WHEEL_MUTED ≤ db) (hhigh : db ≤ 12) :
    (if wheelStep db ≠ 0 then ((wheelStep db).toNat : ℤ) - BF_MASTER_STEP_0DB else BF_OUT_WHEEL_MUTED) =
      db := by
  have hval := wheelStep_toNat hhigh
  unfold BF_OUT_WHEEL_MUTED BF_OUT_WHEEL_FLOOR BF_MASTER_STEP_0DB at *
  split at hval
  · have hzero : wheelStep db = 0 := BitVec.eq_of_toNat_eq (by exact_mod_cast hval)
    rw [hzero]
    simp only [ne_eq, not_true_eq_false, if_false]
    omega
  · have hpos : wheelStep db ≠ 0 := fun hz => by
      rw [hz] at hval
      simp at hval
      omega
    rw [if_pos hpos]
    omega

/-- The balance starts from levels in the range. -/
theorem balanceLevels_range {c : Chip} (h : StepsOk c) (out : Out) :
    InRange (balanceLevels c out).1 ∧ InRange (balanceLevels c out).2 := by
  have hside : ∀ side, InRange (if c.master out side ≠ 0 then
      ((c.master out side).toNat : ℤ) - BF_MASTER_STEP_0DB else BF_OUT_WHEEL_MUTED) := fun side => by
    have hrange := (wheelStep_of_master (h out side)).2
    rwa [ite_not]
  exact ⟨hside 0, hside 1⟩

/-- The levels of the masters after a write of both. -/
theorem balanceLevels_cacheMaster {db : ℤ × ℤ} (out : Out) (c : Chip)
    (hlow : BF_OUT_WHEEL_MUTED ≤ min db.1 db.2) (hhigh : louder db ≤ 12) :
    balanceLevels (cacheMaster out (wheelStep db.1) (wheelStep db.2) c) out = db := by
  have hhigh : db.1 ≤ 12 ∧ db.2 ≤ 12 := max_le_iff.mp hhigh
  obtain ⟨hl, hr⟩ := le_min_iff.mp hlow
  have hmaster : (cacheMaster out (wheelStep db.1) (wheelStep db.2) c).master out =
      ![wheelStep db.1, wheelStep db.2] := Function.update_self ..
  unfold balanceLevels
  rw [hmaster]
  exact Prod.ext (level_of_wheelStep hl hhigh.1) (level_of_wheelStep hr hhigh.2)

/-- Without new levels the balance is what it was. -/
theorem BalanceTurned.of_levels {c c' : Chip} (h : StepsOk c) (out : Out) (hc : c'.levels = c.levels) :
    BalanceTurned out c c' := by
  simp only [Chip.levels, Prod.mk.injEq] at hc
  have hrange := balanceLevels_range h out
  have hlevels : balanceLevels c' out = balanceLevels c out := by
    unfold balanceLevels
    rw [hc.1]
  refine ⟨by rw [hlevels], ?_, fun o _ => by rw [hc.1]⟩
  rw [hlevels]
  exact le_min hrange.1.1 hrange.2.1

/-- Levels in the range whose louder side is that of an output balance it, once they are written to it. -/
theorem bfPanelWriteMaster_balanced {w : World} (h : WheelLevels w.chip) (out : Out) {db : ℤ × ℤ}
    (hlouder : louder db = louder (balanceLevels w.chip out))
    (hquieter : BF_OUT_WHEEL_MUTED ≤ min db.1 db.2) :
    WheelLevels (bfPanelWriteMaster out (wheelStep db.1) (wheelStep db.2) w).2.chip ∧
      BalanceTurned out w.chip (bfPanelWriteMaster out (wheelStep db.1) (wheelStep db.2) w).2.chip := by
  have hrange := balanceLevels_range h.steps out
  -- The louder side stays where it is, so the new levels are in the range.
  have hhigh : louder db ≤ 12 := by
    rw [hlouder]
    exact max_le hrange.1.2 hrange.2.2
  have htop : db.1 ≤ 12 ∧ db.2 ≤ 12 := max_le_iff.mp hhigh
  obtain ⟨w', vs, hrun, hc, -⟩ := bfPanelWriteMaster_moves out (wheelStep db.1) (wheelStep db.2) w
  rw [hrun]
  have hmaster : w'.chip.master = (cacheMaster out (wheelStep db.1) (wheelStep db.2) w.chip).master := by
    rw [Chip.quiet_eq hc]
    rfl
  have hlast : w'.chip.panel_master_last = w.chip.panel_master_last := by
    rw [Chip.quiet_eq hc]
    rfl
  have hhdb : w'.chip.panel_out_hdb = w.chip.panel_out_hdb := by
    rw [Chip.quiet_eq hc]
    rfl
  -- The levels that are read back from the cached steps are those that the wheel chose.
  have hbal : balanceLevels w'.chip out = db := by
    rw [← balanceLevels_cacheMaster out w.chip hquieter hhigh]
    unfold balanceLevels
    rw [hmaster]
  refine ⟨h.of_masters ?_ hlast hhdb, ⟨?_, ?_, fun o ho => ?_⟩⟩
  · unfold StepsOk
    rw [hmaster]
    exact cacheMaster_stepsOk h.steps _ (wheelStep_le htop.1) (wheelStep_le htop.2)
  · show louder (balanceLevels w'.chip _) = _
    rw [hbal, hlouder]
  · show _ ≤ min (balanceLevels w'.chip _).1 (balanceLevels w'.chip _).2
    rw [hbal]
    exact hquieter
  · show w'.chip.master o = _
    rw [hmaster]
    exact Function.update_of_ne ho ..

/-- A turn of the balance wheel leaves a muted output as it is, and balances another one. -/
theorem bfPanelBalanceWheel_turned {w : World} (h : WheelLevels w.chip) (delta : ℤ) :
    WheelLevels (bfPanelBalanceWheel delta w).2.chip ∧
      BalanceTurned (bfPanelOutPair w.chip) w.chip (bfPanelBalanceWheel delta w).2.chip ∧
      (w.chip.muted (bfPanelOutPair w.chip) = true →
        (bfPanelBalanceWheel delta w).2.chip.levels = w.chip.levels) := by
  unfold bfPanelBalanceWheel
  rw [Bus.M.bind_of_ok (Bus.M.get_run w), Bus.M.ite_run]
  split
  -- Muted, only the mute is written over.
  · obtain ⟨w', vs, hrun, hc, -⟩ :=
      post8_moves (bfPanelOutPair w.chip) BF_MASTER_MUTE BF_MASTER_MUTE w
    have hlevels := congrArg Chip.levels hc
    unfold bfPanelRemute
    rw [hrun]
    exact ⟨h.congr hlevels, .of_levels h.steps _ hlevels, fun _ => hlevels⟩
  rename_i hloud
  rw [Bus.M.ite_run]
  split
  -- At the floor the wheel has nothing to balance.
  · exact ⟨h, .of_levels h.steps _ rfl, fun _ => rfl⟩
  · rename_i hfloor
    obtain ⟨hlouder, hquieter⟩ := balanceTurn_spec (not_lt.mp hfloor) delta
    obtain ⟨hlevels, hturned⟩ := bfPanelWriteMaster_balanced h _ hlouder hquieter
    exact ⟨hlevels, hturned, fun hmute => absurd hmute hloud⟩

/-! ## Runs -/

/-- A step of the card as far as the two wheels see it: a turn of one of them, by any number of clicks at
any time; a put of any control; a start of the panel; or anything that leaves their levels alone. The
OUT wheel only turns where `ok` holds. -/
inductive LevelStep (ok : Chip → Prop) : World → World → Prop
  | outWheel (delta now : ℤ) {w : World} (h : ok w.chip) : LevelStep ok w (bfPanelOutWheel delta now w).2
  | balance (delta : ℤ) (w : World) : LevelStep ok w (bfPanelBalanceWheel delta w).2
  | put (k : Clock) (x : ElemValue) (ctl : Ctl) (w : World) : LevelStep ok w (bfPut k x ctl w).2
  | restart (jiffies : ℤ) (w : World) :
    LevelStep ok w { w with chip := babyfacePanelStart jiffies w.chip }
  | aside {w w' : World} (h : w'.chip.levels = w.chip.levels) : LevelStep ok w w'

/-- The runs of a card from its probe on. -/
inductive LevelRun (ok : Chip → Prop) : World → Prop
  | probe {st0 : U8} {reprobe : Bool} {jiffies : ℤ} {p : Params} {w : World}
    (h : Probed st0 reprobe jiffies p w) : LevelRun ok w
  | step {w w' : World} (h : LevelRun ok w) (hs : LevelStep ok w w') : LevelRun ok w'

/-- The flag count is no level. -/
theorem levels_of_quiet {c d : Chip} (h : d.quiet = c.quiet) : d.levels = c.levels := by
  have hlevels := congrArg Chip.levels h
  exact hlevels

/-- A put keeps what holds of the levels: new masters are steps of their control. -/
theorem bfPut_wheelLevels (k : Clock) (x : ElemValue) (ctl : Ctl) {w : World} (h : WheelLevels w.chip) :
    WheelLevels (bfPut k x ctl w).2.chip := by
  -- A put leaves the wheel's own notes alone, whether its writes get through or not.
  have hF : Bus.Framing fun c d : Chip => WheelLevels c → WheelLevels d := Bus.Framing.keeps _
  have hresp : Bus.Respects Chip.quiet fun c d : Chip => WheelLevels c → WheelLevels d :=
    fun c c' d d' hc hd hcd hc' => (hcd (hc'.congr (levels_of_quiet hc.symm))).congr (levels_of_quiet hd)
  obtain ⟨s, hs, hh⟩ | ⟨pair, rfl⟩ | ⟨-, hr⟩ := bfPut_cases k x ctl
  · have hcache : ∀ c : Chip, (s.cache c).panel_master_last = c.panel_master_last ∧
        (s.cache c).panel_out_hdb = c.panel_out_hdb ∧ (s.failed c).levels = c.levels := fun c => by
      cases s <;> exact ⟨rfl, rfl, rfl⟩
    have hk : Keeps (fun c d : Chip => WheelLevels c → WheelLevels d) (bfPut k x ctl) :=
      hh.frames Chip.quiet_quiet hF hresp
        (fun c hc => hc.of_masters (Setting.stepsOk hs hc.steps) (hcache c).1 (hcache c).2.1)
        (fun c hc => hc.congr (hcache c).2.2) (fun _ _ _ => trivial) trivial
    exact hk.state w h
  -- The panel's selection is no level.
  · have hk : Keeps (fun c d : Chip => d.levels = c.levels) (bfPanelSelectPut k pair x.item) :=
      bfPanelSelectPut_keeps (Bus.Framing.view Chip.levels) (fun _ => rfl) (fun _ _ _ => rfl) (fun _ => rfl)
        (fun _ => rfl) k pair _
    exact h.congr (hk.state w)
  · obtain ⟨e, -, hp⟩ := hr w
    rw [hp]
    exact h

/-- Every step keeps what holds of the levels. -/
theorem LevelStep.wheelLevels {w w' : World} (hs : LevelStep NearSides w w') (h : WheelLevels w.chip) :
    WheelLevels w'.chip := by
  cases hs with
  | outWheel delta now hnear => exact (bfPanelOutWheel_turned h hnear delta now).1
  | balance delta => exact (bfPanelBalanceWheel_turned h delta).1
  | put k x ctl => exact bfPut_wheelLevels k x ctl h
  | restart jiffies => exact ⟨h.steps, h.range, h.fits, fun _ => .inl fun _ => rfl⟩
  | aside hsame => exact h.congr hsame

/-- A new card starts at the defaults, with no level of the wheel's own. -/
theorem Probed.wheelLevels {st0 : U8} {reprobe : Bool} {jiffies : ℤ} {p : Params} {w : World}
    (h : Probed st0 reprobe jiffies p w) : WheelLevels w.chip := by
  obtain ⟨st, hq, -⟩ := babyfaceProbe_run h
  have hchip : w.chip.quiet = (probedChip st reprobe jiffies p).quiet := by rw [← hq, Chip.quiet_quiet]
  have hlast : w.chip.panel_master_last = fun _ _ => 0xffff := by
    rw [Chip.quiet_eq hchip]
    rfl
  -- Neither start of the device has turned the wheel.
  have hhdb : w.chip.panel_out_hdb = fun _ _ => 0 := by
    rw [Chip.quiet_eq hchip]
    cases st <;> rfl
  refine ⟨h.wheelSafe.steps, fun out => ?_, fun out side => ?_, fun out => .inl fun side => ?_⟩
  · unfold trackedLevels
    rw [hhdb]
    show InRange (louder (0, 0))
    exact ⟨by decide, by decide⟩
  · rw [hhdb]
    show (-32768 : ℤ) ≤ 0
    decide
  · rw [hlast]

/-- Along a run the wheel's levels are in their range. -/
theorem LevelRun.wheelLevels {w : World} (h : LevelRun NearSides w) : WheelLevels w.chip := by
  induction h with
  | probe hp => exact hp.wheelLevels
  | step _ hs ih => exact hs.wheelLevels ih

/-! ## Polls are such steps -/

/-- What the rest of the driver does beside the wheels. -/
theorem LevelRun.aside {ok : Chip → Prop} {w w' : World} (h : LevelRun ok w)
    (hsame : w'.chip.levels = w.chip.levels) : LevelRun ok w' := h.step (.aside hsame)

/-- A stage that keeps the view of the wheels. -/
theorem LevelRun.stage {ok : Chip → Prop} {m : Usb Unit} (hm : Aside m) {w : World} (h : LevelRun ok w) :
    LevelRun ok (m w).2 := by
  have hview := hm.state w
  simp only [Chip.wheelView, Prod.mk.injEq] at hview
  refine h.aside ?_
  unfold Chip.levels
  rw [hview.1, hview.2.2.2.1, hview.2.2.2.2.1]

/-- A resync goes on with the run. -/
theorem LevelRun.resync {ok : Chip → Prop} {w : World} (h : LevelRun ok w) (rest : ℤ) :
    LevelRun ok (bfPanelOutResync rest w).2 := by
  have hframe : WheelFrame (fun c d : Chip => d.levels = c.levels) fun _ => True :=
    ⟨Bus.Framing.view Chip.levels, fun _ _ => rfl, fun _ _ => trivial, fun _ _ => trivial⟩
  have hk : Keeps (fun c d : Chip => d.levels = c.levels) (bfPanelOutResync rest) :=
    bfPanelOutResync_frames hframe (fun _ => rfl) rest
  exact h.aside (hk.state w)

/-- A turn in the mode of the OUT wheel clicks the output that the panel selects. -/
theorem turns_of_mode {st : Readback} {c : Chip} (h : turnOf st c ≠ 0)
    (hmode : wheelMode c (wheelClass (st 2)) = .out) : turns st c = some (bfPanelOutPair c) := by
  unfold turnOf at h
  split at h
  · rename_i hclass
    unfold wheelMode at hmode
    split_ifs at hmode with hmix hhold hcls
    exact if_pos ⟨h, hclass, (Bool.not_eq_true _).mp hmix, lt_of_not_ge fun hge => hhold ⟨hge, hcls⟩, hcls⟩
  · exact absurd rfl h

/-- The wheel's stage turns the OUT wheel only where the poll clicks an output. -/
theorem LevelRun.tickWheel {w : World} (h : LevelRun NearSides w) (st : Readback) (now : ℤ)
    (hnear : ∀ out, turns st w.chip = some out → NearSides w.chip) :
    LevelRun NearSides (tickWheel st now w).2 := by
  rw [tickWheel_turn]
  split
  · exact h
  rename_i hturn
  -- The count and its notification come before the wheel's stage, and touch no level.
  have hcounted : LevelRun NearSides { w with
      chip := countWheel (turnOf st w.chip) w.chip, notes := w.notes ++ [.panelWheel] } := h.aside rfl
  generalize hmode : wheelMode w.chip (wheelClass (st 2)) = mode
  cases mode with
  | mix => exact hcounted.stage (bfPanelMixWheel_aside _)
  | balance => exact hcounted.step (.balance _ _)
  | out =>
    refine hcounted.step (.outWheel _ now (w := { w with
      chip := countWheel (turnOf st w.chip) w.chip, notes := w.notes ++ [.panelWheel] }) ?_)
    exact hnear _ (turns_of_mode hturn hmode)
  | gain => exact hcounted.stage (bfPanelGainWheel_aside _)
  | none => exact hcounted

/-- A poll is a run of such steps. -/
theorem LevelRun.poll {w : World} (h : LevelRun NearSides w) (p : Poll) (t : ℤ)
    (hnear : ∀ out, clicks p w.chip = some out → NearSides w.chip) :
    LevelRun NearSides (babyfacePanelWork p t w).2 := by
  by_cases hreads : Reads w
  · have htick : LevelRun NearSides (((if w.chip.panel_seen then decode p
        else Bus.M.modify (snapshot p.st) : Usb Unit)) (heard w)).2 := by
      split
      -- Only a poll that decodes can click, and it clicks where the wheel's stage turns.
      · rename_i hseen
        have hclicks : clicks p w.chip = turns p.st w.chip := if_pos ⟨hreads.1, hseen⟩
        rw [hclicks] at hnear
        rw [decode_eq]
        refine Bus.holds_bind ?_ fun _ w₁ h₁ => ?_
        · obtain ⟨btn, ns, hrun⟩ := tickButton_run p.st (heard w)
          have h₀ : LevelRun NearSides { heard w with
            chip := { (heard w).chip with panel_button := btn }, notes := ns } := h.aside rfl
          -- The resync and the other stages stand beside the OUT wheel.
          rw [decodeHead_run, hrun]
          exact (h₀.tickWheel p.st p.now hnear).resync p.rest
        · refine Bus.holds_bind (h₁.stage (decodeMid_aside p)) fun _ w₂ h₂ => ?_
          exact Bus.holds_bind (h₂.stage (tickSet_aside p.st)) fun _ w₃ h₃ => h₃.stage (decodeTail_aside p)
      · exact h.aside rfl
    rw [babyfacePanelWork_reads p t hreads]
    exact Bus.holds_bind htick fun _ w' hw => hw.aside rfl
  -- A poll that does not read leaves the cache alone but for its due time.
  · obtain ⟨usb, t', hrun⟩ := babyfacePanelWork_deaf p t hreads
    rw [hrun]
    exact h.aside rfl

/-- So is every other step of the card. -/
theorem LevelRun.card {w w' : World} (h : LevelRun NearSides w) (hs : CardStep w w')
    (hnear : ∀ p t, w' = (babyfacePanelWork p t w).2 → ∀ out, clicks p w.chip = some out →
      NearSides w.chip) : LevelRun NearSides w' := by
  obtain ⟨p, t, he⟩ | hoff := hs.poll_or
  · rw [he]
    exact h.poll p t (hnear p t he)
  · -- Only the levels matter to what comes after.
    have hsame {c d : Chip} (hd : d.levels = c.levels) (hc : ∀ v : World, v.chip = c → LevelRun NearSides v)
        (v : World) (hv : v.chip = d) : LevelRun NearSides v :=
      (hc { v with chip := c } rfl).aside (by rw [hv, hd])
    refine hoff.keeps (P := fun c => ∀ v : World, v.chip = c → LevelRun NearSides v)
      (fun c c' d d' hc hd hcd hc' => hsame (levels_of_quiet hd)
        (hcd (hsame (levels_of_quiet hc).symm hc'))) (fun k x ctl he _ v hv => ?_)
      (fun c s _ => hsame rfl) (fun c => hsame rfl) (fun c => hsame rfl) (fun strip c => hsame rfl)
      (fun jiffies c hc v hv => ?_) (fun v hv => h.aside (by rw [hv])) w' rfl
    · rw [he] at hv
      exact (h.step (.put k x ctl w)).aside (by rw [hv])
    · exact ((hc { v with chip := c } rfl).step (.restart jiffies _)).aside (by rw [hv])

/-! ## Every run -/

/-- The levels of one output. -/
def Chip.levelsOf (c : Chip) (out : Out) : (Side → U16) × (Side → U16) × (Side → ℤ) :=
  (c.master out, c.panel_master_last out, c.panel_out_hdb out)

/-- A run in which nothing but the OUT wheel touches the output `out`. -/
inductive Undisturbed (out : Out) (w : World) : World → Prop
  | refl : Undisturbed out w w
  | outWheel (delta now : ℤ) {w' : World} (h : Undisturbed out w w') (hnear : NearSides w'.chip) :
    Undisturbed out w (bfPanelOutWheel delta now w').2
  | apart {w' w'' : World} (h : Undisturbed out w w') (hs : LevelStep NearSides w' w'')
    (ho : w''.chip.levelsOf out = w'.chip.levelsOf out) : Undisturbed out w w''

/-- The levels of an output after a turn. -/
theorem relevel_levelsOf (out : Out) (db : ℤ × ℤ) (c : Chip) : (relevel out db c).levelsOf out =
    (![wheelStep db.1, wheelStep db.2], ![wheelStep db.1, wheelStep db.2],
      ![toInt16 db.1, toInt16 db.2]) := by
  unfold Chip.levelsOf relevel
  simp only [Function.update_self]

/-- The pair of levels is that of the output's own. -/
theorem outLevels_congr {c d : Chip} {out : Out} (h : d.levelsOf out = c.levelsOf out) :
    outLevels d out = outLevels c out := by
  simp only [Chip.levelsOf, Prod.mk.injEq] at h
  obtain ⟨hmaster, hlast, hhdb⟩ := h
  have hlevel : ∀ side, bfOutWheelLevel d out side = bfOutWheelLevel c out side := fun side =>
    bfOutWheelLevel_congr (congrFun hmaster side) (congrFun hlast side) (congrFun hhdb side)
  unfold outLevels
  rw [hlevel, hlevel]

/-- So is the image of its two sides. -/
theorem image_congr {c d : Chip} {out : Out} (h : d.levelsOf out = c.levelsOf out) :
    image d out = image c out := by
  unfold image
  rw [outLevels_congr h]

/-- What nothing but the OUT wheel touches keeps its image. -/
theorem Undisturbed.image {out : Out} {w w' : World} (hr : Undisturbed out w w')
    (h : LevelRun NearSides w) : LevelRun NearSides w' ∧ image w'.chip out = image w.chip out := by
  induction hr with
  | refl => exact ⟨h, rfl⟩
  | outWheel delta now _ hnear ih =>
    obtain ⟨hrun, himage⟩ := ih
    have hturned := (bfPanelOutWheel_turned hrun.wheelLevels hnear delta now).2
    exact ⟨hrun.step (.outWheel delta now hnear), (hturned.image out).trans himage⟩
  | apart _ hs ho ih =>
    obtain ⟨hrun, himage⟩ := ih
    exact ⟨hrun.step hs, (image_congr ho).trans himage⟩

/-- What a turn of either wheel does in a state of the card. -/
structure WheelsTurn (w : World) : Prop where
  out : NearSides w.chip → ∀ delta now, OutTurned delta w.chip (bfPanelOutWheel delta now w).2.chip
  balance : ∀ delta,
    BalanceTurned (bfPanelOutPair w.chip) w.chip (bfPanelBalanceWheel delta w).2.chip
  muted : w.chip.muted (bfPanelOutPair w.chip) = true → ∀ delta now,
    (bfPanelOutWheel delta now w).2.chip.master = w.chip.master ∧
      (bfPanelBalanceWheel delta w).2.chip.master = w.chip.master

/-- In every run in which the OUT wheel only turns outputs whose sides lie near enough: the louder level of
every output is in the range of the wheel and the masters are in theirs; the wheels turn as they should;
and what nothing but the OUT wheel touches keeps its image. Sides that lie too far apart are those that
some turn takes out of the range. -/
theorem out_wheel_levels {w : World} (h : LevelRun NearSides w) :
    (∀ out, InRange (louder (trackedLevels w.chip out)) ∧ InRange (louder (outLevels w.chip out))) ∧
      StepsOk w.chip ∧ WheelsTurn w ∧
      (∀ out w', Undisturbed out w w' → image w'.chip out = image w.chip out) ∧
      (NearSides w.chip ↔ ∀ delta now, InRange
        (louder (trackedLevels (bfPanelOutWheel delta now w).2.chip (bfPanelOutPair w.chip)))) := by
  have hlevels := h.wheelLevels
  refine ⟨fun out => ⟨hlevels.range out, hlevels.louder_range out⟩, hlevels.steps, ⟨?_, ?_, ?_⟩, ?_, ?_⟩
  -- The wheels' own steps are the lemmas above, at the levels of this state.
  · exact fun hnear delta now => (bfPanelOutWheel_turned hlevels hnear delta now).2
  · exact fun delta => (bfPanelBalanceWheel_turned hlevels delta).2.1
  · intro hmute delta now
    have hout := bfPanelOutWheel_levels delta now w
    rw [hmute, if_pos rfl] at hout
    exact ⟨congrArg Prod.fst hout,
      congrArg Prod.fst ((bfPanelBalanceWheel_turned hlevels delta).2.2 hmute)⟩
  · exact fun out w' hr => (hr.image h).2
  -- The condition is exact: where it fails, a turn down to mute leaves the range.
  · constructor
    · exact fun hnear delta now => (bfPanelOutWheel_turned hlevels hnear delta now).1.range _
    · intro hrange
      by_contra hfar
      exact absurd (hrange (-200) 0).2 (not_le.mpr (bfPanelOutWheel_wraps hlevels hfar 0))

/-- Eight clicks down on a new card. -/
theorem out_wheel_levels_fresh :
    InRange (louder (trackedLevels (bfPanelOutWheel (-8) 0 freshCard).2.chip 0)) := by
  have hnear : NearSides freshCard.chip := by decide +kernel
  exact ((out_wheel_levels ((LevelRun.probe freshCard_probed).step (.outWheel (-8) 0 hnear))).1 0).1

/-! ## A run that leads further -/

/-- A card in some run, whose OUT wheel stands at the levels `db` of output 0. -/
structure Turning (db : ℤ × ℤ) (w : World) : Prop where
  run : LevelRun (fun _ => True) w
  live : ∀ i, w.usb i = true
  unmuted : w.chip.muted 0 = false
  selected : bfPanelOutPair w.chip = 0
  levels : outLevels w.chip 0 = db

/-- The levels are those that the wheel wrote. -/
structure Written (db : ℤ × ℤ) (w : World) : Prop extends Turning db w where
  fits : -32768 ≤ db.1 ∧ -32768 ≤ db.2
  wrote : w.chip.levelsOf 0 = (relevel 0 db w.chip).levelsOf 0

/-- The wheel's levels left their range. -/
def Wrapped (w : World) : Prop :=
  LevelRun (fun _ => True) w ∧ 12 < louder (trackedLevels w.chip 0)

/-- A poll's eight clicks down take the louder side down, or wrap the other one. -/
theorem Turning.turn {db : ℤ × ℤ} {w : World} (h : Turning db w) (hrange : InRange (louder db))
    (hlow : -60000 ≤ min db.1 db.2) :
    Wrapped (bfPanelOutWheel (-8) 0 w).2 ∨ ∃ s ≤ 0, Written (shifted s db) (bfPanelOutWheel (-8) 0 w).2 ∧
      InRange (louder (shifted s db)) ∧
      louder (shifted s db) ≤ max (louder db - 8) BF_OUT_WHEEL_MUTED := by
  have hrun := h.run.step (.outWheel (-8) 0 trivial)
  have hkeep : Keeps (fun c d : Chip => (d.muted, d.panel_out) = (c.muted, c.panel_out))
      (bfPanelOutWheel (-8) 0) :=
    bfPanelOutWheel_frames (viewFrame (v := fun c => (c.muted, c.panel_out)) fun _ _ => rfl) (fun _ _ _ _ => rfl)
      (fun _ _ _ _ _ _ => rfl) _ _
  -- The stage touches neither the selection nor the mute.
  have hlive := hkeep.live h.live
  obtain ⟨hmuted, hout⟩ := Prod.mk.inj (hkeep.state w)
  have hlevels := bfPanelOutWheel_levels (-8) 0 w
  rw [h.selected, h.unmuted, if_neg Bool.false_ne_true] at hlevels
  have hmoves := outWheelLevels_moves (c := w.chip) (by rwa [h.selected, h.levels]) (-8)
    (clickTime w.chip 0)
  -- Eight clicks at once lower the louder side by eight.
  have hdown : louder (outWheelLevels w.chip (-8) (clickTime w.chip 0)) ≤
      max (louder db - 8) BF_OUT_WHEEL_MUTED := by
    have hclicks := outWheelClicks_down 8 (decide (w.chip.panel_out_wheel_t ≠ 0 ∧
      -1 = w.chip.panel_out_wheel_dir ∧ bfPanelOutPair w.chip = w.chip.panel_out_wheel_out ∧
      ktimeMsDelta (clickTime w.chip 0) w.chip.panel_out_wheel_t < BF_OUT_WHEEL_ACCEL_MS)) hrange
    rw [← h.levels, ← h.selected] at hclicks ⊢
    exact hclicks
  rw [h.selected, h.levels] at hmoves
  -- The levels after the turn are those before it, shifted by `s`.
  generalize outWheelLevels w.chip (-8) (clickTime w.chip 0) = db' at *
  obtain ⟨⟨s, rfl, -, hneg⟩, hrange'⟩ := hmoves
  have hs : -193 ≤ s := by
    have hlouder := louder_shifted s db
    unfold InRange BF_OUT_WHEEL_MUTED BF_OUT_WHEEL_FLOOR at *
    omega
  have hof : (bfPanelOutWheel (-8) 0 w).2.chip.levelsOf 0 =
      (relevel 0 (shifted s db) w.chip).levelsOf 0 :=
    congrArg (fun v : (Out → Side → U16) × (Out → Side → U16) × (Out → Side → ℤ) =>
      (v.1 0, v.2.1 0, v.2.2 0)) hlevels
  have hselected : bfPanelOutPair (bfPanelOutWheel (-8) 0 w).2.chip = 0 := by
    rw [← h.selected]
    unfold bfPanelOutPair
    rw [hout]
  -- Both shifted levels fit in 16 bits and are noted as they are, or one of them wraps.
  by_cases hfits : -32768 ≤ (shifted s db).1 ∧ -32768 ≤ (shifted s db).2
  · refine .inr ⟨s, hneg (by decide), ⟨⟨hrun, hlive, ?_, hselected, ?_⟩, hfits, ?_⟩, hrange', hdown⟩
    · rw [hmuted]
      exact h.unmuted
    · rw [outLevels_congr hof]
      exact (outLevels_relevel hfits.1 hfits.2 hrange').1
    · rw [hof, relevel_levelsOf, relevel_levelsOf]
  · refine .inl ⟨hrun, ?_⟩
    have htracked : trackedLevels (bfPanelOutWheel (-8) 0 w).2.chip 0 =
        (toInt16 (shifted s db).1, toInt16 (shifted s db).2) := by
      rw [relevel_levelsOf] at hof
      have hhdb := (Prod.mk.inj (Prod.mk.inj hof).2).2
      unfold trackedLevels
      rw [hhdb]
      rfl
    rw [htracked]
    obtain ⟨hl, hr⟩ := le_min_iff.mp hlow
    have hwide : -60193 ≤ (shifted s db).1 ∧ -60193 ≤ (shifted s db).2 := by
      unfold shifted
      constructor <;> dsimp only <;> omega
    rcases not_and_or.mp hfits with hfar | hfar
    · exact lt_max_of_lt_left (toInt16_wraps (by omega) (by omega))
    · exact lt_max_of_lt_right (toInt16_wraps (by omega) (by omega))

/-- The polls of a turn down to mute, with `n + 1` of them: the levels wrap, or fall by as many clicks. -/
theorem Turning.down {db : ℤ × ℤ} {w : World} (h : Turning db w) (hrange : InRange (louder db))
    (hlow : -50000 ≤ min db.1 db.2) (n : ℕ) :
    (∃ w', Wrapped w') ∨ ∃ w' s, s ≤ 0 ∧ Written (shifted s db) w' ∧ InRange (louder (shifted s db)) ∧
      louder (shifted s db) ≤ max (louder db - 8 * (n + 1)) BF_OUT_WHEEL_MUTED := by
  -- The induction is on the polls, and carries the shift so far.
  induction n with
  | zero =>
    rcases h.turn hrange (by omega) with hwrap | ⟨s, hs, hwritten, hrange', hdown⟩
    · exact .inl ⟨_, hwrap⟩
    · exact .inr ⟨_, s, hs, hwritten, hrange', hdown.trans (by simp)⟩
  | succ n ih =>
    rcases ih with hwrap | ⟨w', s, hs, hwritten, hrange', hdown⟩
    · exact .inl hwrap
    have hlouder := louder_shifted s db
    -- The quieter side stays far enough from the end of the 16 bits for one more turn.
    have hwide : -60000 ≤ min (shifted s db).1 (shifted s db).2 := by
      unfold shifted InRange BF_OUT_WHEEL_MUTED BF_OUT_WHEEL_FLOOR at *
      dsimp only at *
      omega
    rcases hwritten.turn hrange' hwide with hwrap | ⟨t, ht, hwritten', hrange'', hdown'⟩
    · exact .inl ⟨_, hwrap⟩
    · rw [shifted_shifted] at hwritten' hrange'' hdown'
      refine .inr ⟨_, s + t, by omega, hwritten', hrange'', hdown'.trans ?_⟩
      push_cast
      omega

/-- A put of silence on the left and of the top on the right. -/
def topRight : ElemValue := ⟨fun i => if i = 0 then 0 else 193, 0⟩

/-- A level below the range is step 0. -/
theorem wheelStep_muted {db : ℤ} (h : db ≤ BF_OUT_WHEEL_MUTED) : wheelStep db = 0 :=
  if_pos (lt_of_le_of_lt h (by decide))

/-- The wheel keeps the level of the left side, and starts again from the top on the right. -/
theorem Written.put {a : ℤ} {w : World} (h : Written (a, -181) w) (ha : a ≤ -181) :
    Turning (a, 12) (bfPut clock0 topRight (.master 0) w).2 := by
  have hrun := h.run.step (.put clock0 topRight (.master 0) w)
  have hsetting : Ctl.setting topRight (.master 0) = some (.master 0 0 193) := rfl
  have hwrote := h.wrote
  rw [relevel_levelsOf] at hwrote
  dsimp only at hwrote
  rw [wheelStep_muted ha, @wheelStep_muted (-181) (by decide),
    toInt16_of_fits h.fits.1 (ha.trans (by decide))] at hwrote
  simp only [Chip.levelsOf, Prod.mk.injEq] at hwrote
  obtain ⟨hmaster, hlast, hhdb⟩ := hwrote
  -- The right master changes, so the put is no short cut.
  rcases (bfPut_handles clock0 hsetting).run_live h.live with ⟨hsame, -⟩ | ⟨-, w', hp, hc, -, hlive⟩
  · have hright : (193 : U16) = w.chip.master 0 1 := eq_of_beq (Bool.and_eq_true_iff.mp hsame).2
    rw [hmaster] at hright
    exact absurd hright (by decide)
  · rw [hp] at hrun ⊢
    have hnew : w'.chip.toMixer = (cacheMaster 0 0 193 w.chip).toMixer := by
      rw [Chip.quiet_eq hc]
      rfl
    have hpanel : w'.chip.toPanel = w.chip.toPanel := by
      rw [Chip.quiet_eq hc]
      rfl
    refine ⟨hrun, hlive, ?_, ?_, ?_⟩
    · rw [hnew]
      exact h.unmuted
    · rw [← h.selected]
      unfold bfPanelOutPair
      rw [hpanel]
    -- The left side is tracked, and its level is the wheel's own; the right one is read off its new step.
    · have hmaster' : w'.chip.master 0 = ![0, 193] := by
        rw [hnew]
        exact Function.update_self 0 ![0, 193] w.chip.master
      unfold outLevels bfOutWheelLevel
      rw [hmaster', hpanel, hlast, hhdb]
      rfl

/-- One round: the right side goes to the top and down to mute, and the left side falls by as much. -/
theorem Written.round {a : ℤ} {w : World} (h : Written (a, -181) w) (ha : a ≤ -181) :
    (∃ w', Wrapped w') ∨ ∃ w', Written (a - 193, -181) w' := by
  have hfits := h.fits.1
  have htop : louder (a, 12) = 12 := max_eq_right (show a ≤ 12 by omega)
  have hrange : InRange (louder (a, 12)) := by
    rw [htop]
    exact ⟨by decide, le_refl _⟩
  have hlow : -50000 ≤ min (a, (12 : ℤ)).1 (a, (12 : ℤ)).2 := by
    dsimp only at hfits ⊢
    omega
  refine ((h.put ha).down hrange hlow 24).imp_right fun ⟨w', s, _, hwritten, hrange', hdown⟩ => ⟨w', ?_⟩
  -- Twenty-five polls are enough for 193 half-dB.
  have hs : s = -193 := by
    rw [louder_shifted, htop] at hrange' hdown
    unfold InRange BF_OUT_WHEEL_MUTED BF_OUT_WHEEL_FLOOR at *
    omega
  rw [hs] at hwritten
  exact hwritten

/-- A round of clicks moves the left side by 193 half decibels until it wraps. -/
theorem rounds_wrap (n : ℕ) {w : World} (h : Written (-181, -181) w) :
    (∃ w', Wrapped w') ∨ ∃ w', Written (-181 - 193 * n, -181) w' := by
  induction n with
  | zero => exact .inr ⟨w, by simpa using h⟩
  | succ n ih =>
    rcases ih with hwrap | ⟨w', hwritten⟩
    · exact .inl hwrap
    · have hround := hwritten.round (by omega)
      have hnext : -181 - 193 * ((n + 1 : ℕ) : ℤ) = -181 - 193 * n - 193 := by
        push_cast
        omega
      rwa [hnext]

/-- A new card with output 0 selected and unmuted, before transfers that all get through. -/
theorem Probed.turning {st0 : U8} {reprobe : Bool} {jiffies : ℤ} {p : Params} {w : World}
    (h : Probed st0 reprobe jiffies p w) (hmuted : w.chip.muted 0 = false)
    (hselected : bfPanelOutPair w.chip = 0) :
    Turning (outLevels w.chip 0) { w with usb := fun _ => true } :=
  ⟨(LevelRun.probe h).aside rfl, fun _ => rfl, hmuted, hselected, rfl⟩

/-- Masters that are put to silence on the left and the top on the right, and turned down to mute, time
after time: the level of the left side falls past an `s16`, and returns far above the range. -/
theorem out_wheel_wraps : ∃ w, LevelRun (fun _ => True) w ∧ ¬ InRange (louder (trackedLevels w.chip 0)) := by
  have hwrap : ∃ w, Wrapped w := by
    have hfresh := freshCard_probed.turning (by decide +kernel) (by decide +kernel)
    have hrange := freshCard_probed.wheelLevels.louder_range 0
    have heq : (outLevels freshCard.chip 0).1 = (outLevels freshCard.chip 0).2 := by decide +kernel
    generalize outLevels freshCard.chip 0 = db at hfresh hrange heq
    -- Both sides start at one level, so the first turn down mutes both.
    have hlouder : louder db = db.1 := by
      unfold louder
      omega
    obtain ⟨hlow, hhigh⟩ := hrange
    have hwide : -50000 ≤ min db.1 db.2 := by
      unfold BF_OUT_WHEEL_MUTED BF_OUT_WHEEL_FLOOR at hlow
      omega
    rcases hfresh.down ⟨hlow, hhigh⟩ hwide 24 with hwrap | ⟨w, s, -, hwritten, hrange', hdown⟩
    · exact hwrap
    -- At mute on both sides the rounds of put and turn begin.
    have hmuted : shifted s db = (-181, -181) := by
      rw [louder_shifted] at hrange' hdown
      unfold InRange BF_OUT_WHEEL_MUTED BF_OUT_WHEEL_FLOOR at *
      unfold shifted
      exact Prod.ext (by dsimp only; omega) (by dsimp only; omega)
    rw [hmuted] at hwritten
    rcases rounds_wrap 169 hwritten with hwrap | ⟨w', hdeep⟩
    · exact hwrap
    · -- After 169 rounds the level would lie below an `s16`.
      exact absurd hdeep.fits.1 (by decide)
  obtain ⟨w, hrun, hlevel⟩ := hwrap
  exact ⟨w, hrun, fun hrange => absurd hlevel (not_lt.mpr hrange.2)⟩

end BabyfacePro
