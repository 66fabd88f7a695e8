import BabyfacePro.Core.Masters
import BabyfacePro.Panel.Reprobe

/-!
# The contract of put and get

Every control declares the range of its values to the control core, which checks it in a debug
configuration only: the handlers check for themselves. `PutMeets` is what a put of a value owes to
its control. The handlers of Trim, Gain and the EQ narrow the value to 32 bits before they look at
it, and `put_contract_iff` says that this is the only way to break the contract.
-/

namespace BabyfacePro

open Bus.M (get modify when throw)

/-! ## What the controls declare -/

/-- `struct snd_ctl_elem_info`: the type of a control, with its channels and its range or its items. -/
inductive ElemInfo where
  | boolean (count : ℕ)
  | integer (count : ℕ) (min max : ℤ)
  | enumerated (items : ℕ)
  deriving DecidableEq, Repr

/-- `bf_eq_info`. -/
def bfEqInfo : EqParam → ElemInfo
  | .enable => .boolean 1
  | .type _ => .enumerated 4
  | .lcSlope => .enumerated 4
  | .gain _ => .integer 1 (-240) 240
  | .q _ => .integer 1 5 1000
  | .freq _ | .lcFreq => .integer 1 0 20000

/-- What the info handler of a control declares. -/
def bfInfo : Ctl → ElemInfo
  | .master _ => .integer 2 0 BF_MASTER_STEP_MAX
  | .mute _ | .loopback _ | .phase _ | .split _ | .phantom _ | .pad _ => .boolean 1
  | .an12 | .link | .ms | .dim | .panelMix | .panelDim => .boolean 1
  | .xpoint _ _ => .integer 2 0 BF_FADER_TOP
  | .trim _ => .integer 1 (-65) 6
  | .refLevel => .enumerated 3
  | .gain mic => .integer 1 0 (bfGainMaxDb mic)
  | .pitch => .integer 1 (-50) 50
  | .clock | .optical => .enumerated 2
  | .width => .integer 1 (-100) 100
  | .fxSend => .integer 1 0 0x1000
  | .eq _ p => bfEqInfo p
  | .panelButton => .integer 1 0 6
  | .panelWheel => .integer 1 (-32768) 32767
  | .panelIn | .panelOut => .enumerated 4
  | .panelSelect _ => .enumerated 5
  | .dimPress => .integer 1 0 0x7fffffff

/-- Whether a value lies in a declared range, on every channel. A switch has no range to check. -/
def ElemInfo.Accepts (x : ElemValue) : ElemInfo → Prop
  | .boolean _ => True
  | .integer count min max => ∀ ch : Side, ch.val < count → min ≤ x.value ch ∧ x.value ch ≤ max
  | .enumerated items => x.item < items

/-- A value as a get handler returns it. -/
def ElemInfo.shows (x : ElemValue) : ElemInfo → List ℤ
  | .boolean count | .integer count _ _ => ((List.finRange 2).take count).map x.value
  | .enumerated _ => [x.item]

/-- The integer and enumerated controls that can be put. -/
def Ctl.isLevel : Ctl → Bool
  | .master _ | .xpoint _ _ | .trim _ | .refLevel | .gain _ | .pitch | .clock | .optical => true
  | .width | .fxSend | .panelSelect _ => true
  | .eq _ p => p ≠ .enable
  | _ => false

/-- The controls whose put handler narrows its integer to 32 bits. -/
def Ctl.narrows : Ctl → Bool
  | .trim _ | .gain _ => true
  | .eq _ p => !p.isEnum
  | _ => false

/-- A value with its integers narrowed. -/
def ElemValue.narrow (x : ElemValue) : ElemValue := { x with value := fun ch => toInt32 (x.value ch) }

/-- The value that a put handler checks and stores. -/
def Ctl.taken (ctl : Ctl) (x : ElemValue) : ElemValue := if ctl.narrows then x.narrow else x

/-- The put is one that the selection ignores, in the restore after a re-probe. -/
def Ctl.Ignores (k : Clock) (c : Chip) (ctl : Ctl) : Prop :=
  ∃ pair, ctl = .panelSelect pair ∧ (selectRestore k c && c.reprobe) = true

/-- What a put of the value `x` owes to its control. -/
structure PutMeets (k : Clock) (x : ElemValue) (ctl : Ctl) (w : World) : Prop where
  /-- It is refused, and nothing changes, exactly when the value is outside the declared range. -/
  refuses : ((bfPut k x ctl w).1 = .error .einval ∧ (bfPut k x ctl w).2.chip = w.chip ∧
    (bfPut k x ctl w).2.wire = w.wire) ↔ ¬ (bfInfo ctl).Accepts x
  /-- Otherwise a get returns the value, -/
  takes : (bfInfo ctl).Accepts x → bfGet (bfPut k x ctl w).2.chip ctl = (bfInfo ctl).shows x
  /-- the put returns whether that changed, -/
  counts : (bfInfo ctl).Accepts x → (bfPut k x ctl w).1 =
    .ok (if bfGet (bfPut k x ctl w).2.chip ctl = bfGet w.chip ctl then 0 else 1)
  /-- and the same put again, at whatever time, returns 0 and writes nothing. -/
  repeats : (bfInfo ctl).Accepts x → ∀ k', (bfPut k' x ctl (bfPut k x ctl w).2).1 = .ok 0 ∧
    (bfPut k' x ctl (bfPut k x ctl w).2).2.wire = (bfPut k x ctl w).2.wire

/-! ## Values and settings -/

/-- An item of an enumeration, narrowed: a large one is negative. -/
theorem toInt32_item {item : ℕ} (h : item < 2 ^ 32) {n : ℕ} (hn : n < 2 ^ 31) :
    (0 ≤ toInt32 item ∧ toInt32 item ≤ n) ↔ item < n + 1 := by
  unfold toInt32
  constructor
  · intro hv
    by_contra hlt
    have hge : n + 1 ≤ item := by omega
    rw [Int.bmod_def] at hv
    omega
  · intro hlt
    rw [Int.bmod_eq_of_le (by omega) (by omega)]
    omega

/-- The register word of a value in range is the value. -/
theorem ofInt16_toNat {v hi : ℤ} (h : 0 ≤ v ∧ v ≤ hi) (hhi : hi < 2 ^ 16) :
    ((BitVec.ofInt 16 v).toNat : ℤ) = v := by
  rw [BitVec.toNat_ofInt]
  omega

/-- One channel. -/
theorem accepts_one {x : ElemValue} {lo hi : ℤ} :
    (ElemInfo.integer 1 lo hi).Accepts x ↔ lo ≤ x.value 0 ∧ x.value 0 ≤ hi := by
  constructor
  · exact fun h => h 0 (by decide)
  · intro h ch hch
    obtain rfl : ch = 0 := Fin.ext (by omega)
    exact h

/-- Two channels. -/
theorem accepts_two {x : ElemValue} {lo hi : ℤ} : (ElemInfo.integer 2 lo hi).Accepts x ↔
    (lo ≤ x.value 0 ∧ x.value 0 ≤ hi) ∧ lo ≤ x.value 1 ∧ x.value 1 ≤ hi := by
  have hch : ∀ ch : Side, ch = 0 ∨ ch = 1 := by decide
  constructor
  · exact fun h => ⟨h 0 (by decide), h 1 (by decide)⟩
  · rintro ⟨h0, h1⟩ ch -
    obtain rfl | rfl := hch ch
    · exact h0
    · exact h1

/-- The test of a range. -/
theorem within_iff {v lo hi : ℤ} : within v lo hi = true ↔ lo ≤ v ∧ v ≤ hi := by
  rw [within, Bool.and_eq_true, decide_eq_true_eq, decide_eq_true_eq]

/-- The test of two values. -/
theorem within_two {a b lo hi : ℤ} : (within a lo hi && within b lo hi) = true ↔
    (lo ≤ a ∧ a ≤ hi) ∧ lo ≤ b ∧ b ≤ hi := by
  rw [Bool.and_eq_true, within_iff, within_iff]

/-- The handlers of the EQ check the range that `bf_eq_info` declares. -/
theorem eq_within_iff {strip : Mic} {p : EqParam} (hp : p ≠ .enable) {x : ElemValue}
    (hx : x.item < 2 ^ 32) : within (p.arg (x.value 0) x.item) p.min p.max = true ↔
      (bfEqInfo p).Accepts ((Ctl.eq strip p).taken x) := by
  rw [within_iff]
  cases p with
  | enable => exact absurd rfl hp
  | type band => exact toInt32_item hx (by decide)
  | lcSlope => exact toInt32_item hx (by decide)
  | freq band => exact (accepts_one (x := x.narrow)).symm
  | q band => exact (accepts_one (x := x.narrow)).symm
  | gain band => exact (accepts_one (x := x.narrow)).symm
  | lcFreq => exact (accepts_one (x := x.narrow)).symm

/-- The slope's items are stored as decibels, and read back as items. -/
theorem shown_stored {p : EqParam} {v : ℤ} (h : p.min ≤ v ∧ v ≤ p.max) : p.shown (p.stored v) = v := by
  cases p with
  | lcSlope =>
    have hv : v = 0 ∨ v = 1 ∨ v = 2 ∨ v = 3 := by
      simp only [EqParam.min, EqParam.max] at h
      omega
    obtain rfl | rfl | rfl | rfl := hv <;> decide
  | _ => rfl

/-- The value that an EQ control shows. -/
theorem eq_shows {strip : Mic} {p : EqParam} (hp : p ≠ .enable) {x : ElemValue} (hx : x.item < 2 ^ 32)
    (h : (bfEqInfo p).Accepts ((Ctl.eq strip p).taken x)) :
    [p.arg (x.value 0) x.item] = (bfEqInfo p).shows ((Ctl.eq strip p).taken x) := by
  have hitem : x.item < 4 → toInt32 x.item = x.item := fun hlt => by
    have hrange : 0 ≤ (x.item : ℤ) ∧ (x.item : ℤ) ≤ 3 := by omega
    exact toInt32_of_le hrange (by decide) (by decide)
  cases p with
  | enable => exact absurd rfl hp
  | type band => exact congrArg (fun v : ℤ => [v]) (hitem h)
  | lcSlope => exact congrArg (fun v : ℤ => [v]) (hitem h)
  | freq band | q band | gain band | lcFreq => rfl

/-- A value that is in range once it is narrowed is a setting, and reads as it was narrowed. -/
theorem Ctl.setting_of_accepts {ctl : Ctl} {x : ElemValue} (hl : ctl.isLevel = true)
    (hs : ∀ pair, ctl ≠ .panelSelect pair) (hx : x.item < 2 ^ 32)
    (h : (bfInfo ctl).Accepts (ctl.taken x)) :
    ∃ s, ctl.setting x = some s ∧ s.reading = (bfInfo ctl).shows (ctl.taken x) := by
  have hword : ∀ {v hi : ℤ}, 0 ≤ v ∧ v ≤ hi → hi < 2 ^ 16 → ((BitVec.ofInt 16 v).toNat : ℤ) = v :=
    fun hv hhi => ofInt16_toNat hv hhi
  -- An item of a switch is a bit.
  have hitem : x.item < 2 → ofBool (x.item ≠ 0) = x.item := fun hlt => by
    obtain h0 | h1 : x.item = 0 ∨ x.item = 1 := by omega
    · rw [h0]; rfl
    · rw [h1]; rfl
  -- Each handler's own check is the range of its info callback.
  cases ctl <;> try cases hl
  case master out =>
    have hv : (0 ≤ x.value 0 ∧ x.value 0 ≤ BF_MASTER_STEP_MAX) ∧ 0 ≤ x.value 1 ∧ x.value 1 ≤ BF_MASTER_STEP_MAX :=
      accepts_two.mp h
    refine ⟨_, if_pos (within_two.mpr hv), ?_⟩
    simp only [Setting.reading, hword hv.1 (by decide), hword hv.2 (by decide)]
    rfl
  case xpoint out src =>
    have hv : (0 ≤ x.value 0 ∧ x.value 0 ≤ BF_FADER_TOP) ∧ 0 ≤ x.value 1 ∧ x.value 1 ≤ BF_FADER_TOP :=
      accepts_two.mp h
    refine ⟨_, if_pos (within_two.mpr hv), ?_⟩
    simp only [Setting.reading, hword hv.1 (by decide), hword hv.2 (by decide)]
    rfl
  case trim mic => exact ⟨_, if_pos (within_iff.mpr (accepts_one.mp h)), rfl⟩
  case refLevel => exact ⟨_, if_pos (Nat.le_of_lt_succ h), rfl⟩
  case gain mic => exact ⟨_, if_pos (within_iff.mpr (accepts_one.mp h)), rfl⟩
  case pitch => exact ⟨_, if_pos (within_iff.mpr (accepts_one.mp h)), rfl⟩
  case clock => exact ⟨_, if_pos (Nat.le_of_lt_succ h), congrArg (fun v : ℤ => [v]) (hitem h)⟩
  case optical => exact ⟨_, if_pos (Nat.le_of_lt_succ h), congrArg (fun v : ℤ => [v]) (hitem h)⟩
  case width => exact ⟨_, if_pos (within_iff.mpr (accepts_one.mp h)), rfl⟩
  case fxSend =>
    have hv : 0 ≤ x.value 0 ∧ x.value 0 ≤ 0x1000 := accepts_one.mp h
    refine ⟨_, if_pos (within_iff.mpr hv), ?_⟩
    simp only [Setting.reading, hword hv (by decide)]
    rfl
  case eq strip p =>
    -- An EQ parameter that is a level is not the switch of the strip.
    have hp : p ≠ .enable := by simpa [Ctl.isLevel] using hl
    have hw := (eq_within_iff hp hx).mpr h
    refine ⟨_, if_pos hw, ?_⟩
    simp only [Setting.reading, shown_stored (within_iff.mp hw)]
    exact eq_shows hp hx h
  case panelSelect pair => exact absurd rfl (hs pair)

/-- A value that is out of range once it is narrowed is no setting. -/
theorem Ctl.setting_of_not_accepts {ctl : Ctl} {x : ElemValue} (hl : ctl.isLevel = true)
    (hs : ∀ pair, ctl ≠ .panelSelect pair) (hx : x.item < 2 ^ 32)
    (h : ¬ (bfInfo ctl).Accepts (ctl.taken x)) : ctl.setting x = none := by
  cases ctl <;> try cases hl
  case master out =>
    exact if_neg fun hw => h (accepts_two.mpr (within_two.mp hw))
  case xpoint out src =>
    exact if_neg fun hw => h (accepts_two.mpr (within_two.mp hw))
  case trim mic => exact if_neg fun hw => h (accepts_one.mpr (within_iff.mp hw))
  case refLevel => exact if_neg fun hw => h (Nat.lt_succ_of_le hw)
  case gain mic => exact if_neg fun hw => h (accepts_one.mpr (within_iff.mp hw))
  case pitch => exact if_neg fun hw => h (accepts_one.mpr (within_iff.mp hw))
  case clock => exact if_neg fun hw => h (Nat.lt_succ_of_le hw)
  case optical => exact if_neg fun hw => h (Nat.lt_succ_of_le hw)
  case width => exact if_neg fun hw => h (accepts_one.mpr (within_iff.mp hw))
  case fxSend => exact if_neg fun hw => h (accepts_one.mpr (within_iff.mp hw))
  case eq strip p =>
    have hp : p ≠ .enable := by simpa [Ctl.isLevel] using hl
    exact if_neg fun hw => h ((eq_within_iff hp hx).mp hw)
  case panelSelect pair => exact absurd rfl (hs pair)

/-! ## A put of a value in range -/

/-- The selection's entry for an item. -/
def selEntry (v : ℕ) : ℤ := if v < 4 then v else -1

/-- A put of the selection that is not ignored. -/
theorem panelSelectRest_run {restore : Bool} {pair : Fin 3} {v : ℕ} {w : World} (hv : v ≤ 4)
    (hi : (restore && w.chip.reprobe) = false) :
    ∃ w', panelSelectRest restore pair v w =
        (.ok (if selEntry v = w.chip.panel_sel pair then 0 else 1), w') ∧
      w'.chip.panel_sel pair = selEntry v ∧ w'.wire = w.wire ∧ w'.usb = w.usb := by
  -- Arming SELECT leaves the entries alone.
  have harm : ∀ b : Bool, ∃ w₁ : World, (when b (modify fun c : Chip =>
      { c with panel_select_armed := true }) : Usb Unit) w = (.ok (), w₁) ∧
        w₁.chip.panel_sel = w.chip.panel_sel ∧ w₁.wire = w.wire ∧ w₁.usb = w.usb := fun b => by
    cases b
    · exact ⟨w, rfl, rfl, rfl, rfl⟩
    · exact ⟨_, rfl, rfl, rfl, rfl⟩
  have hentry : (if v < 4 then (v : ℤ) else -1) = selEntry v := rfl
  unfold panelSelectRest
  rw [Bus.M.bind_of_ok (Bus.M.get_run w), Bus.M.ite_run, if_neg (by omega), Bus.M.ite_run,
    if_neg (by rw [hi]; decide), hentry]
  obtain ⟨w₁, hw₁, hsel, hwire, husb⟩ := harm _
  rw [Bus.M.bind_of_ok hw₁, Bus.M.ite_run]
  by_cases hsame : selEntry v = w.chip.panel_sel pair
  · rw [if_pos hsame, if_pos hsame]
    exact ⟨w₁, rfl, by rw [hsel, hsame], hwire, husb⟩
  · have hput : (cacheSel pair (selEntry v) w₁.chip).panel_sel pair = selEntry v :=
      Function.update_self ..
    rw [if_neg hsame, if_neg hsame, Bus.M.bind_of_ok (Bus.M.modify_run _ _)]
    by_cases hshown : shownPair w.chip = some pair
    · rw [decide_eq_true hshown]
      cases w.chip.panel_mix <;> exact ⟨_, rfl, hput, hwire, husb⟩
    · rw [decide_eq_false hshown]
      exact ⟨_, rfl, hput, hwire, husb⟩

/-- A put of the selection that says what is known, or that is ignored, writes nothing. -/
theorem panelSelectRest_same {restore : Bool} {pair : Fin 3} {v : ℕ} {w : World} (hv : v ≤ 4)
    (h : w.chip.panel_sel pair = selEntry v) :
    (panelSelectRest restore pair v w).1 = .ok 0 ∧
      (panelSelectRest restore pair v w).2.wire = w.wire := by
  cases hi : restore && w.chip.reprobe with
  | true =>
    unfold panelSelectRest
    rw [Bus.M.bind_of_ok (Bus.M.get_run w), Bus.M.ite_run, if_neg (by omega), Bus.M.ite_run, if_pos hi]
    exact ⟨rfl, rfl⟩
  | false =>
    obtain ⟨w', hrun, -, hwire, -⟩ := panelSelectRest_run hv hi
    rw [hrun, if_pos h.symm]
    exact ⟨rfl, hwire⟩

/-- What the get handler returns for an entry. -/
theorem bfGet_select {c : Chip} {pair : Fin 3} {v : ℕ} (hv : v ≤ 4)
    (h : c.panel_sel pair = selEntry v) : bfGet c (.panelSelect pair) = [(v : ℤ)] := by
  have hshow : (if 0 ≤ selEntry v then selEntry v else 4) = (v : ℤ) := by
    unfold selEntry
    split <;> split <;> omega
  show [if 0 ≤ c.panel_sel pair then c.panel_sel pair else 4] = _
  rw [h, hshow]

/-- What a put of a value in range does, without a failed transfer: `w'` is the state after it. -/
structure Takes (k : Clock) (x : ElemValue) (ctl : Ctl) (w w' : World) : Prop where
  run : bfPut k x ctl w = (.ok (if bfGet w'.chip ctl = bfGet w.chip ctl then 0 else 1), w')
  value : bfGet w'.chip ctl = (bfInfo ctl).shows (ctl.taken x)
  again : ∀ k', (bfPut k' x ctl w').1 = .ok 0 ∧ (bfPut k' x ctl w').2.wire = w'.wire

/-- A selection that is not ignored is taken. -/
theorem select_takes {k : Clock} {x : ElemValue} {pair : Fin 3} {w : World} (hw : w.chip.SelTracked)
    (hi : ¬ (Ctl.panelSelect pair).Ignores k w.chip) (hv : x.item ≤ 4) :
    ∃ w', Takes k x (.panelSelect pair) w w' := by
  have hguard : (selectRestore k w.chip && w.chip.reprobe) = false := by
    rw [← Bool.not_eq_true]
    exact fun hr => hi ⟨pair, rfl, hr⟩
  obtain ⟨w', hrun, (hsel : w'.chip.panel_sel pair = selEntry x.item), -⟩ := panelSelectRest_run hv hguard
  have hget := bfGet_select hv hsel
  -- An entry is determined by what the control shows of it.
  have hsame : bfGet w'.chip (.panelSelect pair) = bfGet w.chip (.panelSelect pair) ↔
      selEntry x.item = w.chip.panel_sel pair := by
    have hrange := hw.range pair
    rw [hget]
    show [(x.item : ℤ)] = [if 0 ≤ w.chip.panel_sel pair then w.chip.panel_sel pair else 4] ↔ _
    rw [List.cons_eq_cons, and_iff_left rfl]
    unfold selEntry
    split <;> split <;> omega
  refine ⟨w', ⟨?_, hget, fun k' => panelSelectRest_same hv hsel⟩⟩
  simp only [hsame]
  exact hrun

/-- A setting is taken whose reading is what the value shows. -/
theorem setting_takes {k : Clock} {x : ElemValue} {ctl : Ctl} {s : Setting} {w : World}
    (hw : w.chip.Sound) (hl : Live w) (hs : ctl.setting x = some s)
    (hr : s.reading = (bfInfo ctl).shows (ctl.taken x)) : ∃ w', Takes k x ctl w w' := by
  have hh := bfPut_handles k hs
  have hslope : ∀ strip, (w.chip.quiet.eq strip).SlopeOk := hw.slope
  have hiff := Setting.cached_iff hs hslope
  rw [bfGet_quiet] at hiff
  obtain ⟨hsame, hp⟩ | ⟨hsame, w', hp, hc, hwire, hl'⟩ := hh.run_live hl
  · -- The short cut.
    refine ⟨w, ⟨by rw [hp, if_pos rfl], by rw [hiff.mp hsame, hr], fun k' => ?_⟩⟩
    rw [(bfPut_handles k' hs).unchanged w hsame]
    exact ⟨rfl, rfl⟩
  -- The put goes through, and its value is cached, so that a second put is the short cut.
  · have hget : bfGet w'.chip ctl = s.reading := by
      rw [← bfGet_quiet, hc, bfGet_quiet, bfGet_cache hs]
    have hne : bfGet w'.chip ctl ≠ bfGet w.chip ctl := fun he => by
      rw [hiff.mpr (he.symm.trans hget)] at hsame
      cases hsame
    have hw' : w'.chip.Sound := by
      have hput := bfPut_sound k x ctl hw
      rwa [hp] at hput
    have hslope' : ∀ strip, (w'.chip.quiet.eq strip).SlopeOk := hw'.slope
    have hsame' : s.cached w'.chip.quiet = true :=
      (Setting.cached_iff hs hslope').mpr (by rw [bfGet_quiet, hget])
    refine ⟨w', ⟨by rw [hp, if_neg hne], hget.trans hr, fun k' => ?_⟩⟩
    rw [(bfPut_handles k' hs).unchanged w' hsame']
    exact ⟨rfl, rfl⟩

/-- A put of an integer or an item either takes the value or refuses it: what decides is the value as
the handler narrows it. -/
theorem level_cases {k : Clock} {x : ElemValue} {ctl : Ctl} {w : World} (hw : w.chip.Sound)
    (ht : w.chip.SelTracked) (hl : Live w) (hc : ctl.isLevel = true) (hx : x.item < 2 ^ 32)
    (hi : ¬ ctl.Ignores k w.chip) :
    ((bfInfo ctl).Accepts (ctl.taken x) ∧ ∃ w', Takes k x ctl w w') ∨
      (¬ (bfInfo ctl).Accepts (ctl.taken x) ∧ bfPut k x ctl w = (.error .einval, w)) := by
  by_cases hsel : ∃ pair, ctl = .panelSelect pair
  -- The panel's selection is checked by its item alone.
  · obtain ⟨pair, rfl⟩ := hsel
    by_cases hv : x.item ≤ 4
    · exact .inl ⟨Nat.lt_succ_of_le hv, select_takes ht hi hv⟩
    · refine .inr ⟨fun ha => hv (Nat.le_of_lt_succ ha), ?_⟩
      exact congrFun (if_pos (not_le.mp hv)) w
  -- The other controls check what they have narrowed.
  · have hs : ∀ pair, ctl ≠ .panelSelect pair := fun pair he => hsel ⟨pair, he⟩
    by_cases ha : (bfInfo ctl).Accepts (ctl.taken x)
    · obtain ⟨s, hset, hread⟩ := Ctl.setting_of_accepts hc hs hx ha
      exact .inl ⟨ha, setting_takes hw hl hset hread⟩
    · have hnone := Ctl.setting_of_not_accepts hc hs hx ha
      obtain ⟨e, he, hp⟩ := bfPut_refused k hnone hs w
      obtain rfl | ⟨-, hread⟩ := he
      · exact .inr ⟨ha, hp⟩
      · have hno : ctl.isReading = false := by cases ctl <;> first | rfl | cases hc
        rw [hno] at hread
        cases hread

/-! ## The contract -/

/-- A value in range is not changed by narrowing. -/
theorem accepts_taken {ctl : Ctl} {x : ElemValue} (hc : ctl.isLevel = true)
    (h : (bfInfo ctl).Accepts x) :
    (bfInfo ctl).Accepts (ctl.taken x) ∧
      (bfInfo ctl).shows (ctl.taken x) = (bfInfo ctl).shows x := by
  unfold Ctl.taken
  cases hn : ctl.narrows with
  | false => exact ⟨h, rfl⟩
  | true =>
    -- A control that narrows has one value, with bounds that fit in 32 bits.
    have hmax : ∀ mic, bfGainMaxDb mic < 2 ^ 31 := by decide
    have hone : ∃ lo hi, bfInfo ctl = .integer 1 lo hi ∧ -(2 ^ 31) ≤ lo ∧ hi < 2 ^ 31 := by
      cases ctl <;> try cases hn
      case trim mic => exact ⟨_, _, rfl, by decide, by decide⟩
      case gain mic => exact ⟨_, _, rfl, by decide, hmax mic⟩
      case eq strip p =>
        cases p with
        | enable => cases hc
        | type band => cases hn
        | lcSlope => cases hn
        | freq band => exact ⟨_, _, rfl, by decide, by decide⟩
        | q band => exact ⟨_, _, rfl, by decide, by decide⟩
        | gain band => exact ⟨_, _, rfl, by decide, by decide⟩
        | lcFreq => exact ⟨_, _, rfl, by decide, by decide⟩
    obtain ⟨lo, hi, hinfo, hlo, hhi⟩ := hone
    rw [hinfo] at h ⊢
    have hsame : toInt32 (x.value 0) = x.value 0 := toInt32_of_le (accepts_one.mp h) hlo hhi
    rw [if_pos rfl]
    refine ⟨accepts_one.mpr ?_, congrArg (fun v : ℤ => [v]) hsame⟩
    show lo ≤ toInt32 (x.value 0) ∧ toInt32 (x.value 0) ≤ hi
    rw [hsame]
    exact accepts_one.mp h

/-- A put that takes its value meets the contract when the value was in range before it was narrowed. -/
theorem Takes.meets {k : Clock} {x : ElemValue} {ctl : Ctl} {w w' : World} (hc : ctl.isLevel = true)
    (h : Takes k x ctl w w') : PutMeets k x ctl w ↔ (bfInfo ctl).Accepts x := by
  constructor
  · intro hm
    by_contra hx
    have href := (hm.refuses.mpr hx).1
    rw [h.run] at href
    cases href
  · intro hx
    refine ⟨?_, fun _ => ?_, fun _ => ?_, fun _ => ?_⟩
    · rw [h.run]
      exact iff_of_false (fun href => by cases href.1) (not_not.mpr hx)
    · rw [h.run, h.value, (accepts_taken hc hx).2]
    · rw [h.run]
    · rw [h.run]
      exact h.again

/-- A put that refuses its value meets the contract when the value was out of range. -/
theorem meets_of_refused {k : Clock} {x : ElemValue} {ctl : Ctl} {w : World}
    (h : bfPut k x ctl w = (.error .einval, w)) (hx : ¬ (bfInfo ctl).Accepts x) : PutMeets k x ctl w where
  refuses := by
    rw [h]
    exact ⟨fun _ => hx, fun _ => ⟨rfl, rfl, rfl⟩⟩
  takes hn := absurd hn hx
  counts hn := absurd hn hx
  repeats hn := absurd hn hx

/-- With no failed transfer a put of an integer or an item meets its contract, unless a value out of
range is in range once it is narrowed to 32 bits. -/
theorem put_contract_iff (k : Clock) (x : ElemValue) (ctl : Ctl) (w : World) (hw : Reachable w)
    (hl : Live w) (hc : ctl.isLevel = true) (hx : x.item < 2 ^ 32) (hi : ¬ ctl.Ignores k w.chip) :
    PutMeets k x ctl w ↔
      (ctl.narrows = true → (bfInfo ctl).Accepts x.narrow → (bfInfo ctl).Accepts x) := by
  have hcond : (ctl.narrows = true → (bfInfo ctl).Accepts x.narrow → (bfInfo ctl).Accepts x) ↔
      ((bfInfo ctl).Accepts (ctl.taken x) → (bfInfo ctl).Accepts x) := by
    unfold Ctl.taken
    cases ctl.narrows with
    | false => exact ⟨fun _ h => h, fun _ hn => by cases hn⟩
    | true => exact ⟨fun h => h rfl, fun h _ => h⟩
  rw [hcond]
  obtain ⟨ha, w', ht⟩ | ⟨ha, hp⟩ := level_cases hw.sound hw.tracked hl hc hx hi
  · rw [ht.meets hc]
    exact ⟨fun h _ => h, fun h => h ha⟩
  · have hout : ¬ (bfInfo ctl).Accepts x := fun h => ha (accepts_taken hc h).1
    exact ⟨fun _ h => absurd h ha, fun _ => meets_of_refused hp hout⟩

/-- A put that is no put of the selection is not ignored. -/
theorem Ctl.not_ignores {ctl : Ctl} (h : ∀ pair, ctl ≠ .panelSelect pair) (k : Clock) (c : Chip) :
    ¬ ctl.Ignores k c := fun ⟨pair, he, _⟩ => h pair he

/-- A gain of 10 dB on a new card. -/
theorem put_contract_iff_gain :
    PutMeets clock0 ⟨fun _ => 10, 0⟩ (.gain 0) (freshCardWith fun _ => true) := by
  have hin : (bfInfo (.gain 0)).Accepts ⟨fun _ => 10, 0⟩ := accepts_one.mpr (by decide)
  have hlive : Live (freshCardWith fun _ => true) := fun _ => rfl
  exact (put_contract_iff clock0 ⟨fun _ => 10, 0⟩ (.gain 0) _ (freshCardWith_reachable _) hlive rfl
    (by decide) (Ctl.not_ignores (by decide) _ _)).mpr fun _ _ => hin

/-- A gain of 2^32 dB on a new card is taken for 0 dB. -/
theorem gain_wraps :
    ¬ PutMeets clock0 ⟨fun _ => 2 ^ 32, 0⟩ (.gain 0) (freshCardWith fun _ => true) := by
  have hw := freshCardWith_reachable fun _ => true
  have hlive : Live (freshCardWith fun _ => true) := fun _ => rfl
  have hout : ¬ (bfInfo (.gain 0)).Accepts ⟨fun _ => 2 ^ 32, 0⟩ := fun h =>
    absurd (accepts_one.mp h) (by decide)
  have hin : (bfInfo (.gain 0)).Accepts ((Ctl.gain 0).taken ⟨fun _ => 2 ^ 32, 0⟩) :=
    accepts_one.mpr (by decide)
  have hnot : ¬ (Ctl.gain 0).Ignores clock0 (freshCardWith fun _ => true).chip :=
    Ctl.not_ignores (by decide) _ _
  have hitem : (⟨fun _ => 2 ^ 32, 0⟩ : ElemValue).item < 2 ^ 32 := by decide
  obtain ⟨-, w', ht⟩ | ⟨ha, -⟩ := level_cases hw.sound hw.tracked hlive rfl hitem hnot
  · rw [ht.meets rfl]
    exact hout
  · exact absurd hin ha

end BabyfacePro
