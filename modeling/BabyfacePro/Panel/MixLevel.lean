import BabyfacePro.Panel.Shadow
import Mathlib.Tactic.Ring

/-!
# The level of the MIX wheel

The MIX wheel turns a level of its own, and writes it to the crosspoints of the selected sources. The
level is taken from the reference crosspoint as MIX is engaged, at a step of SELECT and at a put of the
selection shown. It stays in step through every turn: the fader's curve reads back at most one half-dB
above the level written. A put of the crosspoint, a new IN or OUT selection and a first snapshot with MIX
on do not take the level again.
-/

namespace BabyfacePro

open Bus.M (get modify notify when)

/-! ## The fader's curve -/

/-- A point between two is not above the higher one. -/
theorem interpolate_le {x x₀ x₁ y₀ y₁ : ℤ} (hx : x ≤ x₁) (h₀ : x₀ ≤ x) (hlt : x₀ < x₁) (hy : y₀ ≤ y₁) :
    interpolate x x₀ x₁ y₀ y₁ ≤ y₁ := by
  unfold interpolate
  have hden : 0 < x₁ - x₀ := by omega
  have hhalf : 0 ≤ (x₁ - x₀).tdiv 2 ∧ (x₁ - x₀).tdiv 2 < x₁ - x₀ := by
    rw [Int.tdiv_eq_ediv_of_nonneg hden.le]
    omega
  have hnum : (x - x₀) * (y₁ - y₀) ≤ (x₁ - x₀) * (y₁ - y₀) :=
    mul_le_mul_of_nonneg_right (by omega) (by omega)
  have hpos : 0 ≤ (x - x₀) * (y₁ - y₀) := mul_nonneg (by omega) (by omega)
  have hquot : ((x - x₀) * (y₁ - y₀) + (x₁ - x₀).tdiv 2).tdiv (x₁ - x₀) < y₁ - y₀ + 1 := by
    rw [Int.tdiv_eq_ediv_of_nonneg (by omega)]
    apply Int.ediv_lt_of_lt_mul hden
    calc (x - x₀) * (y₁ - y₀) + (x₁ - x₀).tdiv 2
        < (x₁ - x₀) * (y₁ - y₀) + (x₁ - x₀) := by omega
      _ = (y₁ - y₀ + 1) * (x₁ - x₀) := by ring
  dsimp only
  omega

/-- A curve whose points rise. -/
def Rises : List CurvePoint → Prop
  | p :: p' :: ps => p.raw < p'.raw ∧ p.db2 ≤ p'.db2 ∧ Rises (p' :: ps)
  | _ => True

/-- No point of a curve that rises is above its top. -/
theorem faderRawToDb2_le {top raw : ℤ} {p : CurvePoint} {ps : List CurvePoint} (hr : Rises (p :: ps))
    (hp : p.raw ≤ raw) (htop : ∀ q ∈ p :: ps, q.db2 ≤ top) : faderRawToDb2 raw (p :: ps) ≤ top := by
  induction ps generalizing p with
  | nil => exact htop p List.mem_cons_self
  | cons p' ps ih =>
    obtain ⟨hraw, hdb2, hrest⟩ := hr
    have htop' : ∀ q ∈ p' :: ps, q.db2 ≤ top := fun q hq => htop q (List.mem_cons_of_mem _ hq)
    unfold faderRawToDb2
    split
    · rename_i hle
      exact (interpolate_le hle hp hraw hdb2).trans (htop' p' List.mem_cons_self)
    · exact ih hrest (by omega) htop'

/-- The fader's curve rises. -/
theorem bfFaderCurve_rises : Rises bfFaderCurve := by
  unfold bfFaderCurve
  simp [Rises]

/-- The level of a register's value, where all below the curve's first point count as that point. -/
def faderLevel (raw : U16) : ℤ := max (-124) (bfFaderRawToDb2 raw)

/-- A fader is at most at +6 dB. -/
theorem faderLevel_le (raw : U16) : faderLevel raw ≤ 12 := by
  have hcurve : bfFaderRawToDb2 raw ≤ 12 := by
    unfold bfFaderRawToDb2
    split
    · decide
    · rename_i hlow
      exact faderRawToDb2_le bfFaderCurve_rises (by
        show (3 : ℤ) ≤ raw.toNat
        omega) (by decide)
  unfold faderLevel
  omega

/-- A level written reads back as it is, or one half-dB above. -/
theorem faderLevel_db2ToRaw {db2 : ℤ} (hlow : BF_FADER_DB2_INF ≤ db2) (hhigh : db2 ≤ 12) :
    max (-124) db2 ≤ faderLevel (bfFaderDb2ToRaw db2) ∧
      faderLevel (bfFaderDb2ToRaw db2) ≤ max (-124) db2 + 1 := by
  have hall : ∀ n : Fin 143, max (-124) ((n.val : ℤ) - 130) ≤ faderLevel (bfFaderDb2ToRaw ((n.val : ℤ) - 130)) ∧
      faderLevel (bfFaderDb2ToRaw ((n.val : ℤ) - 130)) ≤ max (-124) ((n.val : ℤ) - 130) + 1 := by
    decide +kernel
  unfold BF_FADER_DB2_INF at hlow
  have hn := hall ⟨(db2 + 130).toNat, by omega⟩
  have hdb2 : (((db2 + 130).toNat : ℕ) : ℤ) - 130 = db2 := by omega
  rwa [show ((⟨(db2 + 130).toNat, by omega⟩ : Fin 143).val : ℤ) - 130 = db2 from hdb2] at hn

/-! ## The reference -/

/-- The level of the reference source's left crosspoint. -/
def refLevel (c : Chip) : ℤ := faderLevel (c.xpoint (bfPanelOutPair c) (mixRef c) 0)

/-- The wheel's level is in step with the reference: it reads back as the level, or one half-dB above. Where
the wheel moves nothing, nothing is asked. -/
def Seeded (c : Chip) : Prop :=
  mixTargets c ≠ [] → max (-124) c.panel_mix_db2 ≤ refLevel c ∧ refLevel c ≤ max (-124) c.panel_mix_db2 + 1

/-- In MIX the level is in step. -/
def MixSeeded (c : Chip) : Prop := c.panel_mix = true → Seeded c

/-- What the level and its reference depend on. -/
def Chip.mixView (c : Chip) : (Out → Src → Side → U16) × ℕ × ℕ × ℤ × ℤ × Bool :=
  (c.xpoint, c.panel_in, c.panel_out, c.panel_select, c.panel_mix_db2, c.panel_mix)

/-- What is mixed depends on the selection, the fader and MIX only. -/
theorem mixView_congr {c d : Chip} (h : d.mixView = c.mixView) :
    mixTargets d = mixTargets c ∧ refLevel d = refLevel c ∧ d.panel_mix_db2 = c.panel_mix_db2 ∧
      d.panel_mix = c.panel_mix := by
  simp only [Chip.mixView, Prod.mk.injEq] at h
  obtain ⟨hx, hin, hout, hselect, hdb2, hmix⟩ := h
  unfold mixTargets refLevel mixRef bfPanelOutPair selMics
  rw [hx, hin, hout, hselect]
  exact ⟨rfl, rfl, hdb2, hmix⟩

/-- Not on the flag count. -/
theorem mixView_of_quiet {c d : Chip} (h : d.quiet = c.quiet) : d.mixView = c.mixView := by
  have hview := congrArg Chip.mixView h
  exact hview

/-- Nor does the level that MIX starts with. -/
theorem MixSeeded.congr {c d : Chip} (h : d.mixView = c.mixView) (hc : MixSeeded c) : MixSeeded d := by
  obtain ⟨htargets, hlevel, hdb2, hmix⟩ := mixView_congr h
  intro hm ht
  rw [hlevel, hdb2]
  exact hc (hmix ▸ hm) (htargets ▸ ht)

/-- A level taken from the reference is in step. -/
theorem bfPanelMixSeed_seeded (c : Chip) : Seeded (bfPanelMixSeed c) := fun _ => by
  have hlevel : refLevel (bfPanelMixSeed c) = refLevel c := rfl
  have hdb2 : (bfPanelMixSeed c).panel_mix_db2 = refLevel c := rfl
  have hlow : -124 ≤ refLevel c := le_max_left _ _
  rw [hlevel, hdb2]
  omega

/-- The wheel moves the reference, if it moves anything. -/
theorem mixRef_mem {c : Chip} (h : mixTargets c ≠ []) : mixRef c ∈ mixTargets c := by
  unfold mixTargets at h ⊢
  unfold mixRef
  split
  · exact List.mem_singleton_self _
  · rename_i hin
    rw [if_neg hin] at h
    split
    · refine List.mem_map.mpr ⟨_, List.mem_cons_self, ?_⟩
      split <;> split <;> rfl
    · rename_i hselect
      rw [if_neg hselect] at h
      exact absurd rfl h

/-! ## A turn -/

/-- What the selection of the reference depends on, and MIX. -/
def Chip.mixSel (c : Chip) : ℕ × ℕ × ℤ × Bool := (c.panel_in, c.panel_out, c.panel_select, c.panel_mix)

/-- What is turned depends on the selection only. -/
theorem mixSel_congr {c d : Chip} (h : d.mixSel = c.mixSel) :
    mixTargets d = mixTargets c ∧ mixRef d = mixRef c ∧ bfPanelOutPair d = bfPanelOutPair c := by
  simp only [Chip.mixSel, Prod.mk.injEq] at h
  obtain ⟨hin, hout, hselect, -⟩ := h
  unfold mixTargets mixRef bfPanelOutPair selMics
  rw [hin, hout, hselect]
  exact ⟨rfl, rfl, rfl⟩

/-- A click on the mix leaves the selection and the level. -/
theorem cacheClick_mixSel (out : Out) (db2 : ℤ) (src : Src) (c : Chip) :
    (cacheClick out db2 src c).mixSel = c.mixSel ∧ (cacheClick out db2 src c).panel_mix_db2 = c.panel_mix_db2 := by
  unfold cacheClick cacheDisp
  dsimp only
  split
  · split <;> exact ⟨rfl, rfl⟩
  · exact ⟨rfl, rfl⟩

/-- It moves the left fader of its source. -/
theorem cacheClick_xpoint (out : Out) (db2 : ℤ) (src src' : Src) (c : Chip) :
    (cacheClick out db2 src c).xpoint out src' 0 =
      if src' = src then bfFaderDb2ToRaw db2 else c.xpoint out src' 0 := by
  have hcache : (cacheClick out db2 src c).xpoint =
      (cacheXpoint out src (bfFaderDb2ToRaw db2) (bfFaderDb2ToRaw db2) c).xpoint := by
    unfold cacheClick cacheDisp
    dsimp only
    split
    · split <;> rfl
    · rfl
  rw [hcache]
  show Function.update c.xpoint out (Function.update (c.xpoint out) src _) out src' 0 = _
  rw [Function.update_self, Function.update_apply]
  split <;> rfl

/-- The clicks on the targets of a turn move their faders only. -/
theorem foldl_cacheClick (out : Out) (db2 : ℤ) (src' : Src) (l : List Src) (c : Chip) :
    let d := l.foldl (fun d src => cacheClick out db2 src d) c
    d.mixSel = c.mixSel ∧ d.panel_mix_db2 = c.panel_mix_db2 ∧
      d.xpoint out src' 0 = if src' ∈ l then bfFaderDb2ToRaw db2 else c.xpoint out src' 0 := by
  induction l generalizing c with
  | nil => exact ⟨rfl, rfl, by simp⟩
  | cons src l ih =>
    obtain ⟨hsel, hdb2, hx⟩ := ih (cacheClick out db2 src c)
    obtain ⟨hsel', hdb2'⟩ := cacheClick_mixSel out db2 src c
    refine ⟨hsel.trans hsel', hdb2.trans hdb2', ?_⟩
    rw [List.foldl_cons, hx, cacheClick_xpoint]
    by_cases hl : src' ∈ l
    · rw [if_pos hl, if_pos (List.mem_cons_of_mem _ hl)]
    · rw [if_neg hl]
      simp only [List.mem_cons, hl, or_false]

/-- What a turn does to the level and to the reference, whatever becomes of its transfers. -/
theorem bfPanelMixWheel_level (delta : ℤ) (w : World) :
    (bfPanelMixWheel delta w).2.chip.mixSel = w.chip.mixSel ∧
      (bfPanelMixWheel delta w).2.chip.panel_mix_db2 = mixLevel w.chip delta ∧
      refLevel (bfPanelMixWheel delta w).2.chip =
        if mixTargets w.chip = [] then refLevel w.chip
        else faderLevel (bfFaderDb2ToRaw (mixLevel w.chip delta)) := by
  obtain ⟨w', -, hrun, hc, -⟩ := bfPanelMixWheel_moves delta w
  -- Each target takes the level in turn; the reference has it as soon as it is one of them.
  obtain ⟨hsel, hdb2, hx⟩ := foldl_cacheClick (bfPanelOutPair w.chip) (mixLevel w.chip delta) (mixRef w.chip)
    (mixTargets w.chip) (setMixLevel (mixLevel w.chip delta) w.chip.quiet)
  have hsel' : w'.chip.mixSel = w.chip.mixSel := (congrArg Chip.mixSel hc).trans hsel
  have hdb2' : w'.chip.panel_mix_db2 = mixLevel w.chip delta := (congrArg (·.panel_mix_db2) hc).trans hdb2
  -- What the clicks leave of the reference's cell is read off the turn's own world.
  have hx' : w'.chip.xpoint (bfPanelOutPair w.chip) (mixRef w.chip) 0 =
      if mixRef w.chip ∈ mixTargets w.chip then bfFaderDb2ToRaw (mixLevel w.chip delta)
      else w.chip.xpoint (bfPanelOutPair w.chip) (mixRef w.chip) 0 :=
    (congrArg (fun c : Chip => c.xpoint (bfPanelOutPair w.chip) (mixRef w.chip) 0) hc).trans hx
  obtain ⟨-, href, hout⟩ := mixSel_congr hsel'
  rw [hrun]
  refine ⟨hsel', hdb2', ?_⟩
  show refLevel w'.chip = _
  unfold refLevel
  rw [href, hout, hx']
  -- The reference is the first of the targets, so it is moved with any of them.
  by_cases ht : mixTargets w.chip = []
  · rw [if_pos ht, ht, if_neg List.not_mem_nil]
  · rw [if_neg ht, if_pos (mixRef_mem ht)]

/-- The level stays between -inf and +6 dB. -/
theorem mixLevel_bounds (c : Chip) (delta : ℤ) :
    BF_FADER_DB2_INF ≤ mixLevel c delta ∧ mixLevel c delta ≤ 12 := by
  unfold mixLevel BF_FADER_DB2_INF
  omega

/-- After a turn the level is in step. -/
theorem bfPanelMixWheel_seeded (delta : ℤ) (w : World) : Seeded (bfPanelMixWheel delta w).2.chip := by
  obtain ⟨hsel, hdb2, hlevel⟩ := bfPanelMixWheel_level delta w
  intro ht
  rw [(mixSel_congr hsel).1] at ht
  rw [hdb2, hlevel, if_neg ht]
  obtain ⟨hlow, hhigh⟩ := mixLevel_bounds w.chip delta
  exact faderLevel_db2ToRaw hlow hhigh

/-- A turn from a level in step does not jump. -/
theorem Seeded.turn {w : World} (h : Seeded w.chip) (delta : ℤ) :
    |refLevel (bfPanelMixWheel delta w).2.chip - refLevel w.chip| ≤ |delta| + 1 := by
  obtain ⟨-, -, hlevel⟩ := bfPanelMixWheel_level delta w
  rw [hlevel]
  split
  · have hpos := abs_nonneg delta
    rw [sub_self, abs_zero]
    omega
  rename_i ht
  obtain ⟨hlow, hhigh⟩ := h ht
  obtain ⟨hlow', hhigh'⟩ := mixLevel_bounds w.chip delta
  obtain ⟨hread, hread'⟩ := faderLevel_db2ToRaw hlow' hhigh'
  have htop : refLevel w.chip ≤ 12 := faderLevel_le _
  unfold mixLevel BF_FADER_DB2_INF at hread hread' ⊢
  obtain ⟨hd, hd'⟩ := abs_le.mp (le_refl |delta|)
  rw [abs_le]
  omega

/-! ## A poll -/

/-- A readback with a new IN selection. -/
def NewIn (st : Readback) (c : Chip) : Prop := bfPanelInDecode st ≠ 0 ∧ bfPanelInDecode st ≠ c.panel_in

/-- A readback with a new OUT selection. -/
def NewOut (st : Readback) (c : Chip) : Prop := bfPanelOutDecode st ≠ 0 ∧ bfPanelOutDecode st ≠ c.panel_out

/-- What the wheel does elsewhere keeps the seed. -/
theorem seededFrame : WheelFrame (fun c d : Chip => MixSeeded c → MixSeeded d) fun _ => True :=
  ⟨Bus.Framing.keeps _, fun _ _ hc => hc.congr rfl, fun _ _ => trivial, fun _ _ => trivial⟩

/-- It leaves what is mixed alone. -/
theorem mixViewFrame : WheelFrame (fun c d : Chip => d.mixView = c.mixView) fun _ => True :=
  viewFrame fun _ _ => rfl

/-- The wheel's stage keeps the level in step: no handler but that of MIX touches it. -/
theorem tickWheel_seeded (st : Readback) (now : ℤ) {w : World} (h : MixSeeded w.chip) :
    MixSeeded (tickWheel st now w).2.chip ∧ (tickWheel st now w).2.chip.mixSel = w.chip.mixSel := by
  have hview : ∀ {d : Chip}, d.mixView = w.chip.mixView → MixSeeded d ∧ d.mixSel = w.chip.mixSel := fun {d} hd => by
    refine ⟨h.congr hd, ?_⟩
    simp only [Chip.mixView, Prod.mk.injEq] at hd
    simp only [Chip.mixSel, hd]
  -- Every mode but MIX leaves what the level is compared with.
  rw [tickWheel_turn]
  split
  · exact hview rfl
  have hX := mixViewFrame
  cases wheelMode w.chip (wheelClass (st 2)) with
  | mix =>
    -- A turn in MIX takes the level to the cells that it moves.
    obtain ⟨hsel, -⟩ := bfPanelMixWheel_level (turnOf st w.chip)
      { w with chip := countWheel (turnOf st w.chip) w.chip, notes := w.notes ++ [.panelWheel] }
    exact ⟨fun _ => bfPanelMixWheel_seeded _ _, hsel⟩
  | balance => exact hview ((bfPanelBalanceWheel_frames (X := fun _ => True) hX (fun _ _ _ _ => rfl) _).state _)
  | out => exact hview ((bfPanelOutWheel_frames (X := fun _ => True) hX (fun _ _ _ _ => rfl)
      (fun _ _ _ _ _ _ => rfl) _ _).state _)
  | gain => exact hview ((bfPanelGainWheel_frames (X := fun _ => True) hX (fun _ _ => rfl) _).state _)
  | none => exact hview rfl

/-- SELECT takes the level again where it steps the selection in MIX. -/
theorem tickSelect_seeded (st : Readback) {w : World} (h : MixSeeded w.chip) :
    MixSeeded (tickSelect st w).2.chip := by
  unfold tickSelect
  rw [Bus.M.bind_of_ok (Bus.M.get_run w), Bus.M.ite_run]
  split
  swap
  · exact h
  rw [Bus.M.ite_run]
  split
  swap
  · exact h.congr rfl
  cases shownPair w.chip with
  | none => exact h
  | some pair =>
    -- SELECT steps the selection, and in MIX takes the level of the new reference.
    show MixSeeded ((do announce (stepSelect pair) (.panelSelect pair)
                        when w.chip.panel_mix (modify bfPanelMixSeed) : Usb Unit) w).2.chip
    rw [announce_then]
    cases hm : w.chip.panel_mix with
    | false =>
      intro hmix
      have hoff : (stepSelect pair w.chip).panel_mix = false := hm
      exact absurd (hoff.symm.trans hmix) (by decide)
    | true => exact fun _ => bfPanelMixSeed_seeded _

/-- A poll that shows no new selection keeps the level in step. -/
theorem decode_seeded (p : Poll) {w : World} (ht : w.chip.SelTracked) (h : MixSeeded w.chip)
    (hin : ¬ NewIn p.st w.chip) (hout : ¬ NewOut p.st w.chip) : MixSeeded (decode p w).2.chip := by
  -- Each stage by itself keeps the level in step; only new selections do not, and there are none.
  have hR := seededFrame.framing
  have hset := tickSet_frames (T := fun _ => True) (X := fun _ => True) hR (fun _ _ hc => hc.congr rfl)
    (fun _ _ hc => hc.congr rfl) (fun _ => trivial) (fun _ => trivial) p.st
  have hpress := tickDimPress_frames (T := fun _ => True) (X := fun _ => True) hR
    (fun _ _ hc => hc.congr rfl) p.st
  have hmix := tickMix_frames (X := fun _ => True) seededFrame mixXfers_all
    (fun _ _ hm => absurd hm Bool.false_ne_true) (fun c _ _ => bfPanelMixSeed_seeded { c with panel_mix := true })
    (fun _ _ hc => hc.congr rfl) p.st
  have hfader := tickFader_frames (T := fun _ => True) (X := fun _ => True) hR mixXfers_all
    (fun _ _ hm => absurd hm Bool.false_ne_true) (fun _ hc => hc.congr rfl) p.st
  have hdim := tickDim_frames (T := fun _ => True) (X := fun _ => True) hR (fun _ _ hc => hc.congr rfl) p.st
  have hhold := tickHold_frames (T := fun _ => True) (X := fun _ => True) hR (fun _ _ hc => hc.congr rfl) p.st
  have hbutton := (tickButton_frames (T := fun _ => True) (X := fun _ => True) mixViewFrame.framing
    (fun _ _ => rfl) p.st).state w
  have hresync := bfPanelOutResync_frames (X := fun _ => True) mixViewFrame (fun _ => rfl) p.rest
  -- The selections of the wheel's world are those before the poll.
  obtain ⟨hwheel, hsel⟩ := tickWheel_seeded p.st p.now (h.congr hbutton)
  have hhead := hwheel.congr (hresync.state _)
  have hshown : (decodeHead p w).2.chip.panel_in = w.chip.panel_in ∧
      (decodeHead p w).2.chip.panel_out = w.chip.panel_out := by
    have hlast := hresync.state (tickWheel p.st p.now (tickButton p.st w).2).2
    simp only [Chip.mixView, Prod.mk.injEq] at hlast hbutton
    simp only [Chip.mixSel, Prod.mk.injEq] at hsel
    rw [decodeHead_run]
    exact ⟨hlast.2.1.trans (hsel.1.trans hbutton.2.1), hlast.2.2.1.trans (hsel.2.1.trans hbutton.2.2.1)⟩
  rw [← decodeHead_run] at hhead
  have htracked : (decodeHead p w).2.chip.SelTracked := by
    -- The head leaves the selections tracked, so the stages after it run as they are written.
    have hsame := (decodeHead_spares p).state w
    simp only [Prod.mk.injEq] at hsame
    exact ht.congr hsame.1
  rw [decode_run p ht, decodeMid_run p htracked, decodeTail_run]
  generalize (decodeHead p w).2 = w₃ at hhead hshown
  -- No new input or output is shown, so the two stages that would take it do nothing.
  have hin₃ : tickIn p.st w₃ = (.ok (), w₃) := by
    unfold tickIn
    rw [Bus.M.bind_of_ok (Bus.M.get_run w₃), Bus.M.ite_run, hshown.1]
    exact if_neg hin
  have hout₃ : tickOut p.st w₃ = (.ok (), w₃) := by
    unfold tickOut
    rw [Bus.M.bind_of_ok (Bus.M.get_run w₃), Bus.M.ite_run, hshown.2]
    exact if_neg hout
  rw [hin₃, hout₃]
  -- The rest are the stages that keep it, one after the other.
  have hlast := hdim.state _ (hfader.state _ (hmix.state _ (hpress.state _ (hset.state _ (hhold.state _
    (tickSelect_seeded p.st hhead))))))
  exact hlast.congr rfl

/-! ## The other steps -/

/-- A put of a selection takes the level again where it changes the selection shown in MIX. -/
theorem bfPanelSelectPut_seeded (k : Clock) (pair : Fin 3) (v : ℕ) {w : World} (h : MixSeeded w.chip) :
    MixSeeded (bfPanelSelectPut k pair v w).2.chip := by
  unfold bfPanelSelectPut
  rw [Bus.M.bind_of_ok (Bus.M.get_run w), Bus.M.ite_run]
  split
  · exact h
  rw [Bus.M.ite_run]
  split
  · exact h
  generalize (if v < 4 then (v : ℤ) else -1) = sel
  -- Whether the guard is armed does not concern the level.
  have harm : ∀ b : Bool, ∃ w₁ : World, (when b (modify fun c : Chip =>
      { c with panel_select_armed := true }) : Usb Unit) w = (.ok (), w₁) ∧
        w₁.chip.mixView = w.chip.mixView := fun b => by
    cases b
    · exact ⟨w, rfl, rfl⟩
    · exact ⟨_, rfl, rfl⟩
  obtain ⟨w₁, hw₁, hview⟩ := harm _
  rw [Bus.M.bind_of_ok hw₁, Bus.M.ite_run]
  split
  · exact h.congr hview
  rw [Bus.M.bind_of_ok (Bus.M.modify_run _ _)]
  -- A put for the pair that is not shown leaves the selection, and so the reference.
  by_cases hp : shownPair w.chip = some pair
  · rw [decide_eq_true hp]
    have hmix := (mixView_congr hview).2.2.2
    cases hm : w.chip.panel_mix with
    | false =>
      have hoff : (bfPanelSelLoad (cacheSel pair sel w₁.chip)).panel_mix = false := hmix.trans hm
      exact fun hon => absurd (hoff.symm.trans hon) Bool.false_ne_true
    -- In MIX the level is taken from the new reference.
    | true => exact fun _ => bfPanelMixSeed_seeded (bfPanelSelLoad (cacheSel pair sel w₁.chip))
  · rw [decide_eq_false hp]
    exact h.congr hview

/-- A fader is set by its own control. -/
theorem Ctl.setting_xpoint {ctl : Ctl} {x : ElemValue} {out : Out} {src : Src} {l r : U16}
    (h : ctl.setting x = some (.xpoint out src l r)) : ctl = .xpoint out src := by
  cases ctl <;> simp only [Ctl.setting, Option.ite_none_right_eq_some, Option.some.injEq,
    reduceCtorEq, and_false, Setting.xpoint.injEq] at h
  obtain ⟨-, rfl, rfl, -⟩ := h
  rfl

/-- No setting but a crosspoint is part of the level or of its reference. -/
theorem Setting.mixView {s : Setting} (hs : ∀ out src l r, s ≠ .xpoint out src l r) (c : Chip) :
    (s.cache c).mixView = c.mixView ∧ (s.failed c).mixView = c.mixView := by
  cases s with
  | xpoint out src l r => exact absurd rfl (hs out src l r)
  | _ => exact ⟨rfl, rfl⟩

/-- A put of any control but a crosspoint keeps the level in step. -/
theorem bfPut_seeded (k : Clock) (x : ElemValue) {ctl : Ctl} (hctl : ∀ out src, ctl ≠ .xpoint out src) {w : World}
    (h : MixSeeded w.chip) : MixSeeded (bfPut k x ctl w).2.chip := by
  obtain ⟨s, hs, hh⟩ | ⟨pair, rfl⟩ | ⟨-, hr⟩ := bfPut_cases k x ctl
  · have hno : ∀ out src l r, s ≠ .xpoint out src l r := fun out src l r he =>
      hctl out src (Ctl.setting_xpoint (he ▸ hs))
    have hresp : Bus.Respects Chip.quiet fun c d : Chip => d.mixView = c.mixView := fun c c' d d' hc hd hcd =>
      (mixView_of_quiet hd).trans (hcd.trans (mixView_of_quiet hc).symm)
    have hframe : Keeps (fun c d : Chip => d.mixView = c.mixView) (bfPut k x ctl) :=
      hh.frames Chip.quiet_quiet (Bus.Framing.view Chip.mixView) hresp (fun c => (Setting.mixView hno c).1)
        (fun c => (Setting.mixView hno c).2) (fun _ _ _ => trivial) trivial
    exact h.congr (hframe.state w)
  · exact bfPanelSelectPut_seeded k pair x.item h
  · obtain ⟨e, -, hrun⟩ := hr w
    rw [hrun]
    exact h

/-- A new start of the panel keeps the selection. -/
theorem babyfacePanelStart_mixView (jiffies : ℤ) {c : Chip} (h : c.SelTracked) :
    (babyfacePanelStart jiffies c).mixView = c.mixView := by
  -- The selection loaded is the one that was shown before.
  have hselect : (bfPanelSelLoad c).panel_select = c.panel_select := by
    unfold bfPanelSelLoad
    dsimp only
    split
    · rename_i hknown
      unfold shownSel at hknown ⊢
      cases hp : shownPair c with
      | none =>
        rw [hp] at hknown
        have hneg : ¬ (0 : ℤ) ≤ -1 := by decide
        exact absurd hknown hneg
      | some pair =>
        rw [hp] at hknown
        exact (h.select pair hp hknown).symm
    -- Where none was known, none is loaded.
    · rename_i hunknown
      refine (h.unknown ?_).symm
      rw [Bool.eq_false_iff]
      intro hknown
      obtain ⟨pair, hp, hpos⟩ := h.known.mp hknown
      unfold shownSel at hunknown
      rw [hp] at hunknown
      exact hunknown hpos
  show (c.xpoint, c.panel_in, c.panel_out, (bfPanelSelLoad c).panel_select, c.panel_mix_db2, c.panel_mix) = _
  rw [hselect]
  rfl

/-- The steps that may change the reference, and do not take the level again. -/
inductive Unseeded (w : World) : World → Prop
  | put (k : Clock) (x : ElemValue) (out : Out) (src : Src) : Unseeded w (bfPut k x (.xpoint out src) w).2
  | shown (p : Poll) (t : ℤ) (hd : Decodes w) (h : NewIn p.st w.chip ∨ NewOut p.st w.chip) :
    Unseeded w (babyfacePanelWork p t w).2
  | first (p : Poll) (t : ℤ) (h : FirstPoll w) : Unseeded w (babyfacePanelWork p t w).2

/-- Every other step keeps the level in step. -/
theorem CardStep.seeded {w w' : World} (hs : CardStep w w') (ht : w.chip.SelTracked) (h : MixSeeded w.chip)
    (hok : Unseeded w w' → MixSeeded w'.chip) : MixSeeded w'.chip := by
  -- A poll, or a step that only goes through the cache.
  obtain ⟨p, t, rfl⟩ | hoff := hs.poll_or
  · by_cases hreads : Reads w
    swap
    · obtain ⟨usb, t', hdeaf⟩ := babyfacePanelWork_deaf p t hreads
      rw [hdeaf]
      exact h.congr rfl
    cases hseen : w.chip.panel_seen with
    -- The first snapshot does not take the level from what it shows, and is the exception.
    | false => exact hok (.first p t ⟨hreads, hseen⟩)
    | true =>
      -- So is a poll that shows another input or output.
      by_cases hnew : NewIn p.st w.chip ∨ NewOut p.st w.chip
      · exact hok (.shown p t ⟨hreads, hseen⟩ hnew)
      · rw [not_or] at hnew
        rw [babyfacePanelWork_decode p t hreads hseen ht]
        exact (decode_seeded p (w := heard w) ht h hnew.1 hnew.2).congr rfl
  -- The other steps do not touch what the level is compared with, but for a put of a crosspoint.
  · have hq : Bus.Respects Chip.quiet fun c d : Chip => c.SelTracked ∧ MixSeeded c → d.SelTracked ∧ MixSeeded d :=
      fun c c' d d' hc hd hcd hc' => by
        obtain ⟨htracked, hseeded⟩ := hcd ⟨hc'.1.congr (Chip.sel_of_quiet hc).symm,
          hc'.2.congr (mixView_of_quiet hc).symm⟩
        exact ⟨htracked.congr (Chip.sel_of_quiet hd), hseeded.congr (mixView_of_quiet hd)⟩
    -- A put of any other control leaves the mix.
    have hput : ∀ k x ctl, w' = (bfPut k x ctl w).2 → w.chip.SelTracked ∧ MixSeeded w.chip →
        w'.chip.SelTracked ∧ MixSeeded w'.chip := by
      rintro k x ctl rfl -
      refine ⟨bfPut_tracked k x ctl ht, ?_⟩
      by_cases hx : ∃ out src, ctl = .xpoint out src
      · obtain ⟨out, src, rfl⟩ := hx
        exact hok (.put k x out src)
      · exact bfPut_seeded k x (fun out src he => hx ⟨out, src, he⟩) h
    exact (hoff.keeps (P := fun c => c.SelTracked ∧ MixSeeded c) hq hput
      (fun _ _ _ hc => ⟨hc.1.congr rfl, hc.2.congr rfl⟩) (fun _ hc => ⟨hc.1.congr rfl, hc.2.congr rfl⟩)
      (fun _ hc => ⟨hc.1.congr rfl, hc.2.congr rfl⟩) (fun _ _ hc => ⟨hc.1.congr rfl, hc.2.congr rfl⟩)
      (fun jiffies _ hc => ⟨babyfacePanelStart_tracked jiffies hc.1.range,
        hc.2.congr (babyfacePanelStart_mixView jiffies hc.1)⟩) ⟨ht, h⟩).2

/-! ## Runs -/

/-- A run from a probe in which the level is in step after every step that may change the reference without
taking the level again. -/
inductive SeededRun : World → Prop
  | probe {st0 : U8} {reprobe : Bool} {jiffies : ℤ} {p : Params} {w : World}
    (h : Probed st0 reprobe jiffies p w) : SeededRun w
  | step {w w' : World} (h : SeededRun w) (hs : CardStep w w') (hok : Unseeded w w' → MixSeeded w'.chip) :
    SeededRun w'

/-- Along the run MIX starts from the fader. -/
theorem SeededRun.seeded {w : World} (h : SeededRun w) : Reachable w ∧ MixSeeded w.chip := by
  induction h with
  | @probe _ _ _ _ w hp =>
    have hmix : w.chip.panel_mix = false := congrArg Panel.panel_mix hp.panel
    exact ⟨⟨_, _, _, _, _, hp, .refl⟩, fun hon => absurd (hmix.symm.trans hon) Bool.false_ne_true⟩
  | step _ hs hok ih => exact ⟨ih.1.step hs, hs.seeded ih.1.tracked ih.2 hok⟩

/-- The outcomes of later transfers are no part of the run. -/
theorem SeededRun.outcomes {w : World} (h : SeededRun w) (usb : ℕ → Bool) : SeededRun { w with usb := usb } :=
  h.step (.outcomes usb w) fun _ => h.seeded.2

/-- A put of any control but a fader goes on with the run. -/
theorem SeededRun.put {w : World} (h : SeededRun w) (k : Clock) (x : ElemValue) {ctl : Ctl}
    (hctl : ∀ out src, ctl ≠ .xpoint out src) : SeededRun (bfPut k x ctl w).2 :=
  h.step (.put k x ctl w) fun _ => bfPut_seeded k x hctl h.seeded.2

/-- How far a poll moves the level of the reference. -/
def refMove (p : Poll) (t : ℤ) (w : World) : ℤ :=
  faderLevel ((babyfacePanelWork p t w).2.chip.xpoint (bfPanelOutPair w.chip) (mixRef w.chip) 0) - refLevel w.chip

/-- After its wheel's stage a poll leaves the crosspoints alone. -/
theorem decode_xpoint (p : Poll) {w : World} (ht : w.chip.SelTracked) :
    (decode p w).2.chip.xpoint = (tickWheel p.st p.now (tickButton p.st w).2).2.chip.xpoint := by
  have hv : WheelFrame (fun c d : Chip => d.xpoint = c.xpoint) fun _ => True := viewFrame fun _ _ => rfl
  have hpanel : ∀ c d : Chip, d.toStream = c.toStream → d.toMixer = c.toMixer → d.eq = c.eq → d.xpoint = c.xpoint :=
    fun c d _ hm _ => congrArg Mixer.xpoint hm
  have hresync := (bfPanelOutResync_frames (X := fun _ => True) hv (fun _ => rfl) p.rest).state
    (tickWheel p.st p.now (tickButton p.st w).2).2
  have hmid := (decodeMid_panel (X := fun _ => True) hv trivial hpanel p).state (decodeHead p w).2
  have hset := (tickSet_frames (T := fun _ => True) (X := fun _ => True) hv.framing (fun _ _ => rfl) (fun _ _ => rfl)
    (fun _ => trivial) (fun _ => trivial) p.st).state (decodeMid p (decodeHead p w).2).2
  have htail := (decodeTail_panel (X := fun _ => True) hv mixXfers_all hpanel p).state
    (tickSet p.st (decodeMid p (decodeHead p w).2).2).2
  rw [← decodeHead_run] at hresync
  rw [decode_run p ht]
  exact htail.trans (hset.trans (hmid.trans hresync))

/-- From a level in step the wheel's stage does not jump. -/
theorem decode_steady (p : Poll) {w : World} (ht : w.chip.SelTracked) (hm : w.chip.panel_mix = true)
    (h : Seeded w.chip) :
    |faderLevel ((decode p w).2.chip.xpoint (bfPanelOutPair w.chip) (mixRef w.chip) 0) - refLevel w.chip| ≤
      |turnOf p.st w.chip| + 1 := by
  have hbutton := (tickButton_frames (T := fun _ => True) (X := fun _ => True) (Bus.Framing.view fun c : Chip =>
    (c.mixView, c.panel_prev)) (fun _ _ => rfl) p.st).state w
  rw [decode_xpoint p ht]
  generalize (tickButton p.st w).2 = w₁ at hbutton
  simp only [Prod.mk.injEq] at hbutton
  obtain ⟨hview, hprev⟩ := hbutton
  obtain ⟨htargets, hlevel, hdb2, hmix⟩ := mixView_congr hview
  have hturn : turnOf p.st w₁.chip = turnOf p.st w.chip := by
    unfold turnOf
    rw [hprev]
  have hsel : w₁.chip.mixSel = w.chip.mixSel := by
    simp only [Chip.mixView, Prod.mk.injEq] at hview
    simp only [Chip.mixSel, hview]
  have hmode : wheelMode w₁.chip (wheelClass (p.st 2)) = .mix := if_pos (hmix.trans hm)
  -- The reference is the same after the wheel's stage.
  have hsteady (w₂ : World) (he : w₂.chip.mixSel = w₁.chip.mixSel) :
      faderLevel (w₂.chip.xpoint (bfPanelOutPair w.chip) (mixRef w.chip) 0) = refLevel w₂.chip := by
    obtain ⟨-, href, hout⟩ := mixSel_congr (he.trans hsel)
    unfold refLevel
    rw [href, hout]
  rw [tickWheel_turn, hturn, hmode, ← hlevel]
  split
  · have hpos := abs_nonneg (turnOf p.st w.chip)
    rw [hsteady w₁ rfl, sub_self, abs_zero]
    omega
  · have hseeded : Seeded w₁.chip := fun hne => by
      rw [hlevel, hdb2]
      exact h (htargets ▸ hne)
    have hmove := Seeded.turn (w := { w₁ with
      chip := countWheel (turnOf p.st w.chip) w₁.chip, notes := w₁.notes ++ [.panelWheel] }) hseeded
      (turnOf p.st w.chip)
    obtain ⟨hsel₂, -⟩ := bfPanelMixWheel_level (turnOf p.st w.chip) { w₁ with
      chip := countWheel (turnOf p.st w.chip) w₁.chip, notes := w₁.notes ++ [.panelWheel] }
    rw [hsteady (turnWheel .mix (turnOf p.st w.chip) p.now _).2 hsel₂]
    exact hmove

/-- In every run in which a crosspoint put, a new IN or OUT selection and a first snapshot leave the wheel's
level in step with the reference: a turn of the MIX wheel moves the reference's level by at most its clicks
and one half-dB. -/
theorem mix_wheel_steady {w : World} (h : SeededRun w) (p : Poll) (t : ℤ) (hd : Decodes w)
    (hm : w.chip.panel_mix = true) : |refMove p t w| ≤ |turnOf p.st w.chip| + 1 := by
  obtain ⟨hr, hseeded⟩ := h.seeded
  unfold refMove
  rw [babyfacePanelWork_decode p t hd.1 hd.2 hr.tracked]
  exact decode_steady p (w := heard w) hr.tracked hm (hseeded hm)

/-- An input is selected on a new card. -/
theorem selectedCard_run (sel : ℕ) : SeededRun (selectedCard sel) := by
  have hfresh : SeededRun (freshCardWith fun _ => true) := SeededRun.outcomes (.probe freshCard_probed) fun _ => true
  have hsnapshot : SeededRun (babyfacePanelWork ⟨![0, 0, 0x40, 0], 0, 0⟩ 0 (freshCardWith fun _ => true)).2 :=
    hfresh.step (.poll _ _ _) fun _ hm => absurd hm (by decide +kernel)
  exact (hsnapshot.put clock0 ⟨fun _ => 0, sel⟩ fun _ _ he => by cases he).outcomes fun _ => true

/-- The card with the left channel of Ch 1/2 selected, and MIX pressed. -/
def pressedCard : World := polls (selectedCard 0) [![0, 0, 0x40, 0x44]]

/-- MIX is pressed then. -/
theorem pressedCard_run : SeededRun pressedCard := by
  have hpressed : Seeded pressedCard.chip := fun _ => by
    unfold refLevel
    decide +kernel
  exact (selectedCard_run 0).step (.poll ⟨![0, 0, 0x40, 0x44], 0, 0⟩ 0 _) fun _ _ => hpressed

/-- Seven clicks after the press of MIX. -/
theorem mix_wheel_steady_pressed :
    |refMove ⟨![0, 0, 0x47, 0x44], 0, 0⟩ 0 pressedCard| ≤ |turnOf ![0, 0, 0x47, 0x44] pressedCard.chip| + 1 := by
  have hdecodes : Decodes pressedCard := ⟨by decide +kernel, by decide +kernel⟩
  have hmix : pressedCard.chip.panel_mix = true := by decide +kernel
  exact mix_wheel_steady pressedCard_run ⟨![0, 0, 0x47, 0x44], 0, 0⟩ 0 hdecodes hmix

/-- A put of the reference crosspoint to 0 dB is forgotten: the next click down mutes it. -/
theorem mix_wheel_jumps :
    ¬ ∀ w, Reachable w → ∀ p t, Decodes w → w.chip.panel_mix = true →
      |refMove p t w| ≤ |turnOf p.st w.chip| + 1 := by
  intro hall
  have hreach : Reachable (bfPut clock0 ⟨fun _ => 0x16a0, 0⟩ (.xpoint 0 0) pressedCard).2 :=
    pressedCard_run.seeded.1.step (.put _ _ _ _)
  have hmove := hall _ hreach ⟨![0, 0, 0x4f, 0x44], 0, 0⟩ 0 ⟨by decide +kernel, by decide +kernel⟩
    (by decide +kernel)
  revert hmove
  decide +kernel

end BabyfacePro
