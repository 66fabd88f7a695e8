import BabyfacePro.Core.Card

/-!
# Puts that fail

What a put leaves behind when a transfer fails. The get handlers return what they returned before,
except after a put of an EQ parameter, which stays in the cache (`failed_put_unseen_iff`). A later put
of the same control makes the device right when it writes; when it takes the short cut instead, the
device is right only if the writes of the failed put changed nothing that matters
(`failed_put_recovers_iff`).
-/

namespace BabyfacePro

/-! ## What the get handlers return -/

/-- The get handlers do not see the flag cycle. -/
theorem bfGet_quiet (c : Chip) (g : Ctl) : bfGet c.quiet g = bfGet c g := by
  cases g <;> rfl

/-- Whether a put is one of an EQ parameter. -/
def Setting.isEq : Setting → Bool
  | .eq _ _ _ => true
  | _ => false

/-- The other handlers put right what they cached before an error. -/
theorem Setting.bfGet_failed {s : Setting} (hn : s.isEq = false) {c : Chip}
    (h : s.cached c = false) (g : Ctl) : bfGet (s.failed c) g = bfGet c g := by
  cases s with
  | clock on =>
    -- The handler puts back the negation of the new value, which is the old one.
    have hon : (!on) = c.clock_optical := by
      have hne : (on == c.clock_optical) = false := h
      revert hne
      cases on <;> cases c.clock_optical <;> decide
    have hc : ({ c with clock_optical := !on } : Chip) = c := by rw [hon]
    exact congrArg (bfGet · g) hc
  | optical spdif =>
    have hon : (!spdif) = c.optical_spdif := by
      have hne : (spdif == c.optical_spdif) = false := h
      revert hne
      cases spdif <;> cases c.optical_spdif <;> decide
    have hc : ({ c with optical_spdif := !spdif } : Chip) = c := by rw [hon]
    exact congrArg (bfGet · g) hc
  | dim on => cases g <;> rfl
  | eq strip p v => cases hn
  | _ => rfl

/-- A panel selection that is refused changes nothing. -/
theorem bfPanelSelectPut_error {k : Clock} {pair : Fin 3} {v : ℕ} {w w' : World} {e : Errno}
    (h : bfPanelSelectPut k pair v w = (.error e, w')) : w' = w := by
  have hR : Bus.Framing fun _ _ : Chip => True := ⟨fun _ => trivial, fun _ _ => trivial⟩
  unfold bfPanelSelectPut at h
  rw [Bus.M.bind_of_ok (Bus.M.get_run w), Bus.M.ite_run, Bus.M.ite_run] at h
  split at h
  · cases h
    rfl
  split at h
  · cases h
  · -- Past the range check the handler makes no transfer and returns.
    refine ((?_ : Bus.Frames Xfer.write (fun _ _ => True) (fun _ => True) (fun _ => False) _).error
      w e (congrArg Prod.fst h)).elim
    refine hR.bind (hR.when _ fun _ => hR.modify fun _ => trivial) fun _ =>
      hR.ite _ (fun _ => hR.pure _) fun _ => ?_
    refine hR.bind (hR.modify fun _ => trivial) fun _ => hR.bind (hR.when _ fun _ => ?_) fun _ =>
      hR.pure _
    exact hR.bind (hR.modify fun _ => trivial) fun _ => hR.when _ fun _ =>
      hR.modify fun _ => trivial

/-- A failed put leaves every reading as it was, exactly when it is not a put of an EQ parameter with
a value in its range. -/
theorem failed_put_unseen_iff {k : Clock} {x : ElemValue} {ctl : Ctl} {w w' : World} {e : Errno}
    (hw : Reachable w) (hp : bfPut k x ctl w = (.error e, w')) :
    (∀ g, bfGet w'.chip g = bfGet w.chip g) ↔
      ∀ strip p, ctl = .eq strip p → ctl.setting x = none := by
  obtain ⟨s, hs, hh⟩ | ⟨pair, rfl⟩ | ⟨hnone, hr⟩ := bfPut_cases k x ctl
  · obtain ⟨-, hsame, -, hq, -⟩ := hh.of_error hp
    have hget : ∀ g, bfGet w'.chip g = bfGet (s.failed w.chip.quiet) g := fun g => by
      rw [← bfGet_quiet, hq, bfGet_quiet]
    cases hn : s.isEq with
    | false =>
      refine iff_of_true (fun g => ?_) fun strip p hc => ?_
      · rw [hget, Setting.bfGet_failed hn hsame, bfGet_quiet]
      · subst hc
        simp only [Ctl.setting, Option.ite_none_right_eq_some, Option.some.injEq] at hs
        obtain ⟨-, rfl⟩ := hs
        cases hn
    | true =>
      -- The parameter stays: its own get handler tells the difference.
      obtain ⟨strip, p, v, rfl⟩ : ∃ strip p v, s = .eq strip p v := by
        cases s <;> first | exact ⟨_, _, _, rfl⟩ | cases hn
      obtain rfl : ctl = .eq strip p := by
        cases ctl <;> simp only [Ctl.setting, Option.ite_none_right_eq_some, Option.some.injEq,
          reduceCtorEq, and_false, Setting.eq.injEq] at hs
        obtain ⟨-, rfl, rfl, -⟩ := hs
        rfl
      refine iff_of_false (fun hall => ?_) fun hnone => ?_
      · have hread : bfGet w.chip (.eq strip p) = (Setting.eq strip p v).reading := by
          rw [← hall, hget]
          exact bfGet_cache hs _
        have hcached : (Setting.eq strip p v).cached w.chip = true :=
          (Setting.cached_iff hs hw.sound.slope).mpr hread
        exact Bool.false_ne_true (hsame.symm.trans hcached)
      · cases hs.symm.trans (hnone strip p rfl)
  · obtain rfl := bfPanelSelectPut_error hp
    exact iff_of_true (fun _ => rfl) fun _ _ hc => by cases hc
  · obtain ⟨e', -, hw'⟩ := hr w
    obtain rfl : w = w' := congrArg Prod.snd (hw'.symm.trans hp)
    exact iff_of_true (fun _ => rfl) fun _ _ _ => hnone

/-- A put that switches a control on. -/
def putOn : ElemValue := { value := fun _ => 1 }

/-- Switching the EQ of AN1 on, with no transfer getting through. -/
def deadEqPut : World := (bfPut clock0 putOn (.eq 0 .enable) (freshCardWith fun _ => false)).2

/-- The EQ of the first strip is switched on while no transfer gets through. -/
theorem deadEqPut_run : ∃ e, bfPut clock0 putOn (.eq 0 .enable) (freshCardWith fun _ => false) =
    (.error e, deadEqPut) := eq_of_not_isOk (by decide +kernel)

/-- The put of an EQ parameter fails, and its get handler returns the new value. -/
theorem failed_put_seen :
    ¬ ∀ (k : Clock) (x : ElemValue) (ctl : Ctl) (w w' : World) (e : Errno), Reachable w →
      bfPut k x ctl w = (.error e, w') → ∀ g, bfGet w'.chip g = bfGet w.chip g := by
  intro hall
  obtain ⟨e, hrun⟩ := deadEqPut_run
  have hget := hall _ _ _ _ _ e (freshCardWith_reachable _) hrun (.eq 0 .enable)
  exact absurd hget (by decide +kernel)

/-- Whether this put is seen. -/
theorem failed_put_unseen_iff_fresh :
    (∀ g, bfGet deadEqPut.chip g = bfGet (freshCardWith fun _ => false).chip g) ↔
      ∀ strip p, Ctl.eq 0 .enable = .eq strip p → (Ctl.eq 0 .enable).setting putOn = none := by
  obtain ⟨e, hrun⟩ := deadEqPut_run
  exact failed_put_unseen_iff (freshCardWith_reachable _) hrun

/-! ## What a later put leaves on the device -/

/-- The loopback map of the cached switches. -/
def loopbackMap (c : Chip) : List (Reg × Datum) :=
  (List.range BF_LOOPBACK_CHANNELS).map fun ch => word BF_REQ_LOOPBACK ch
    (if ∃ out : Out, c.loopback out ∧ ch / 2 = out.val then 0x0001 else 0x0000)

/-- The registers that a control stands for, with the image of its cached value. -/
def Ctl.regs (ctl : Ctl) (c : Chip) : List (Reg × Datum) :=
  match ctl with
  | .master out | .mute out => c.outRegs out
  | .xpoint out src => xpointRegs out src (c.xpoint out src 0) (c.xpoint out src 1)
  | .trim mic => trimRegs mic (c.trim mic * 2)
  | .phantom _ | .pad _ | .refLevel => preampRegs c
  | .gain mic => gainRegs mic (c.gain mic).toNat
  | .loopback _ => loopbackMap c
  | .dim => c.outRegs 1 ++ dimFlagRegs c.dim
  | .width => widthRegs c.width
  | .eq strip _ => eqRegs strip ((c.eq strip).recompute c.eqFs)
  | _ => []

/-- Whether a control stands for registers of its own. The overlays on the crosspoints and the
settings word's fields do not. -/
def Ctl.regBacked : Ctl → Bool
  | .master _ | .mute _ | .xpoint _ _ | .trim _ | .phantom _ | .pad _ | .refLevel | .gain _
  | .loopback _ | .dim | .width | .eq _ _ => true
  | _ => false

/-- The addresses of a control's registers do not depend on its value. -/
theorem Ctl.regs_addrs (ctl : Ctl) (c d : Chip) :
    (ctl.regs c).map Prod.fst = (ctl.regs d).map Prod.fst := by
  cases ctl with
  | loopback out => simp only [Ctl.regs, loopbackMap, List.map_map]; rfl
  | eq strip p => simp only [Ctl.regs, eqRegs, List.map_map]; rfl
  | width => simp only [Ctl.regs, widthRegs, xreg, word, List.map_cons]
  | _ => rfl

/-- A control names each of its registers once. -/
theorem Ctl.regs_nodup (ctl : Ctl) (c : Chip) : ((ctl.regs c).map Prod.fst).Nodup := by
  -- The registers do not depend on the cache, so that a small cache is enough to look at.
  rw [ctl.regs_addrs c {}]
  cases ctl with
  | master out | mute out => revert out; decide
  | xpoint out src => revert out src; decide
  | trim mic => revert mic; decide
  | gain mic => exact List.nodup_singleton _
  | eq strip p =>
    have h : ∀ strip : Mic, ((eqRegs strip {}).map Prod.fst).Nodup := by decide
    simp only [Ctl.regs, eqRegs, List.map_map] at h ⊢
    exact h strip
  | loopback out =>
    simp only [Ctl.regs, loopbackMap, List.map_map]
    exact List.nodup_range.map fun a b h => by cases h; rfl
  | dim | width | refLevel => decide
  | phantom mic | pad mic =>
    have h : ((preampRegs {}).map Prod.fst).Nodup := by decide
    exact h
  | _ => exact List.nodup_nil

/-- Whether writing a register clears another one. -/
def Reg.clears : Reg → Bool
  | .ctl req _ => req = BF_REQ_REG_CLEAR
  | _ => false

/-- A register that no clear touches. -/
theorem effect_of_keeps {w : Reg × Datum} (h : w.1.clears = false) : effect w = w := by
  obtain ⟨a, v⟩ := w
  cases a with
  | ctl req idx => exact if_neg (of_decide_eq_false h)
  | _ => rfl

/-- The writes of a control's registers set what they name. -/
theorem Ctl.regs_effect (ctl : Ctl) (c : Chip) : (ctl.regs c).map effect = ctl.regs c := by
  -- None of a control's registers is one that clears others.
  have hk : ∀ a ∈ (ctl.regs c).map Prod.fst, a.clears = false := by
    rw [ctl.regs_addrs c {}]
    cases ctl with
    | master out | mute out => revert out; decide
    | xpoint out src => revert out src; decide
    | trim mic => revert mic; decide
    | gain mic => revert mic; decide
    | eq strip p =>
      intro a ha
      simp only [Ctl.regs, eqRegs, List.map_map, List.mem_map] at ha
      obtain ⟨ch, -, rfl⟩ := ha
      rfl
    | loopback out =>
      intro a ha
      simp only [Ctl.regs, loopbackMap, List.map_map, List.mem_map] at ha
      obtain ⟨ch, -, rfl⟩ := ha
      rfl
    | dim | width | refLevel => decide
    | phantom mic | pad mic =>
      have h : ∀ a ∈ (preampRegs {}).map Prod.fst, a.clears = false := by decide
      exact h
    | _ => intro a ha; cases ha
  conv_rhs => rw [← List.map_id (ctl.regs c)]
  exact List.map_congr_left fun w hw => effect_of_keeps (hk _ (List.mem_map_of_mem hw))

/-- The loopback map with one output at most on. -/
theorem loopbackRegs_eq (out : Out) (on : Bool) (c : Chip) :
    loopbackRegs out on = loopbackMap (cacheLoopback out on c) := by
  refine List.map_congr_left fun ch _ => congrArg _ (if_congr ?_ rfl rfl)
  simp only [cacheLoopback]
  constructor
  · rintro ⟨hon, hch⟩
    exact ⟨out, by rw [Function.update_self]; exact hon, by omega⟩
  · rintro ⟨o, ho, hch⟩
    by_cases h : o = out
    · subst h
      rw [Function.update_self] at ho
      exact ⟨ho, by omega⟩
    · rw [Function.update_of_ne h] at ho
      cases ho

/-- A put that is not short-cut writes the image of the value that it caches. -/
theorem Setting.writes_eq {ctl : Ctl} {x : ElemValue} {s : Setting} (h : ctl.setting x = some s)
    (hb : ctl.regBacked = true) {c : Chip} (hc : c.DimSaved) (hs : s.cached c = false) :
    s.writes c = ctl.regs (s.cache c) := by
  cases ctl <;> simp only [Ctl.setting, Option.ite_none_right_eq_some, Option.some.injEq,
    reduceCtorEq] at h <;> try cases hb
  case master out =>
    obtain ⟨-, rfl⟩ := h
    simp only [Setting.writes, Ctl.regs, Setting.cache, Chip.outRegs, cacheMaster,
      Function.update_self]
    rfl
  case mute out =>
    subst h
    simp only [Setting.writes, Ctl.regs, Setting.cache, Chip.outRegs, Function.update_self]
  case xpoint out src =>
    obtain ⟨-, rfl⟩ := h
    simp only [Setting.writes, Ctl.regs, Setting.cache, cacheXpoint, Function.update_self]
    rfl
  case trim mic =>
    obtain ⟨-, rfl⟩ := h
    simp only [Setting.writes, Ctl.regs, Setting.cache, cacheTrim, Function.update_of_ne mic.ne_sib,
      Function.update_self]
  case phantom mic => subst h; rfl
  case pad mic => subst h; rfl
  case refLevel => obtain ⟨-, rfl⟩ := h; rfl
  case gain mic =>
    obtain ⟨hv, rfl⟩ := h
    simp only [Setting.writes, Ctl.regs, Setting.cache, Function.update_self, gain_toNat hv]
  case loopback out => subst h; exact loopbackRegs_eq _ _ _
  case dim =>
    subst h
    show outRegs 1 _ _ _ _ ++ dimFlagRegs _ = outRegs 1 _ _ _ _ ++ dimFlagRegs _
    -- DIM is released only where it is engaged, and there its restore point is the cached master.
    cases hv : decide (x.value 0 ≠ 0) with
    | true => rfl
    | false =>
      have hd : c.dim = true := by
        have hne : (decide (x.value 0 ≠ 0) == c.dim) = false := hs
        rw [hv] at hne
        revert hne
        cases c.dim <;> decide
      have hm : (setDim false c).dim_saved = (setDim false c).master 1 := hc hd
      rw [hm]
      rfl
  case width => obtain ⟨-, rfl⟩ := h; rfl
  case eq strip p =>
    obtain ⟨-, rfl⟩ := h
    -- Computing the words again from the same parameters changes nothing.
    have he : ∀ c : Chip, ((recomputeStrip strip c).eq strip).recompute (recomputeStrip strip c).eqFs =
        (recomputeStrip strip c).eq strip := fun c => by
      simp only [recomputeStrip, Function.update_self]
      rfl
    exact congrArg (eqRegs strip) (he _).symm

/-- What a failed put leaves in the cache, up to what neither the get handlers nor the registers see:
the old value, or the new one of an EQ parameter. -/
def Setting.leaves (s : Setting) (c : Chip) : Chip := if s.isEq then s.cache c else c

/-- A failed put of DIM may leave another restore point; apart from it, a put of a control with
registers leaves `Setting.leaves`. -/
theorem Setting.failed_eq {ctl : Ctl} {x : ElemValue} {s : Setting} (h : ctl.setting x = some s)
    (hb : ctl.regBacked = true) (c : Chip) :
    ∃ saved, s.failed c = { s.leaves c with dim_saved := saved } := by
  cases s with
  | dim on => exact ⟨_, rfl⟩
  | clock on | optical on =>
    exfalso
    cases ctl <;> simp only [Ctl.setting, Option.ite_none_right_eq_some, Option.some.injEq,
      reduceCtorEq, and_false] at h
    all_goals cases hb
  | eq strip p v => exact ⟨(cacheEq strip p v c).dim_saved, rfl⟩
  | _ => exact ⟨c.dim_saved, rfl⟩

/-- From `w` to `w'` other things may happen on the card, but nothing to the control `ctl`: its value,
its image and its registers stay. `d` is what the device held before the transfers of the log. -/
structure LeftAlone (ctl : Ctl) (d : Reg → Datum) (w w' : World) : Prop where
  /-- Any steps of the card. -/
  run : Relation.ReflTransGen CardStep w w'
  /-- The value that is read. -/
  value : bfGet w'.chip ctl = bfGet w.chip ctl
  /-- The image of the value. -/
  image : ctl.regs w'.chip = ctl.regs w.chip
  /-- The control's registers. -/
  device : ∀ a ∈ (ctl.regs w.chip).map Prod.fst, contents d w'.wire a = contents d w.wire a

/-- Nothing is done. -/
theorem LeftAlone.refl (ctl : Ctl) (d : Reg → Datum) (w : World) : LeftAlone ctl d w w :=
  ⟨.refl, rfl, rfl, fun _ _ => rfl⟩

/-- When a put of `s'` after a failed put of `s` from `w` leaves the device right: it is not the value
that the failed put left in the cache, so that it is written; or the writes that got through carried
that value's image already, and the device held the rest of the image before. -/
def Recovers (ctl : Ctl) (d : Reg → Datum) (s s' : Setting) (w : World) : Prop :=
  s'.cached (s.leaves w.chip) = false ∨
    (let k := Bus.delivered w.usb (s.writes w.chip).length
    (s.writes w.chip).take k = (ctl.regs (s.leaves w.chip)).take k ∧
      Registers.Holds (contents d w.wire) ((ctl.regs (s.leaves w.chip)).drop k))

/-- The registers of a control do not depend on the flag count. -/
theorem Ctl.regs_image (ctl : Ctl) : Bus.Image Chip.quiet ctl.regs where
  view c := by cases ctl <;> rfl
  addrs c d := ctl.regs_addrs c d
  nodup c := ctl.regs_nodup c

/-- Whether a setting is cached does not depend on what DIM saved. -/
theorem Setting.cached_saved (s : Setting) (c : Chip) (saved : Side → U16) :
    s.cached { c with dim_saved := saved } = s.cached c := by
  cases s <;> rfl

/-- Nor do the registers of a control. -/
theorem Ctl.regs_saved (ctl : Ctl) (c : Chip) (saved : Side → U16) :
    ctl.regs { c with dim_saved := saved } = ctl.regs c := by
  cases ctl <;> rfl

/-- What a failed setting leaves does not depend on the flag count. -/
theorem Setting.leaves_quiet (s : Setting) (c : Chip) : s.leaves c.quiet = (s.leaves c).quiet := by
  cases s <;> rfl

/-- After a put that failed at any of its transfers, a later accepted put of the control that returns
no error leaves its value in the cache, and its image on the device exactly when it recovers. -/
theorem failed_put_recovers_iff {k k' : Clock} {x x' : ElemValue} {ctl : Ctl} {s s' : Setting}
    {d : Reg → Datum} {w w₁ w₂ w₃ : World} {e : Errno} {r : ℕ} (hb : ctl.regBacked = true)
    (hs : ctl.setting x = some s) (hs' : ctl.setting x' = some s') (hw : Reachable w)
    (hp : bfPut k x ctl w = (.error e, w₁)) (hl : LeftAlone ctl d w₁ w₂)
    (hp' : bfPut k' x' ctl w₂ = (.ok r, w₃)) :
    (bfGet w₃.chip ctl = s'.reading ∧ Registers.Holds (contents d w₃.wire) (ctl.regs w₃.chip)) ↔
      Recovers ctl d s s' w := by
  have hh := bfPut_handles k hs
  have hh' := bfPut_handles k' hs'
  have hw₁ : Reachable w₁ := by
    have hstep := hw.step (.put k x ctl w)
    rwa [hp] at hstep
  have hw₂ : Reachable w₂ := hw₁.run hl.run
  -- The later put leaves its value in the cache, whether it wrote or not.
  have hread : bfGet w₃.chip ctl = s'.reading := by
    obtain ⟨hc, -, rfl⟩ | ⟨-, -, hc, -, -⟩ := hh'.of_ok hp'
    · rw [Setting.cached_quiet] at hc
      exact (Setting.cached_iff hs' hw₂.sound.slope).mp hc
    · rw [← bfGet_quiet, hc, bfGet_quiet]
      exact bfGet_cache hs' _
  -- Either put writes the image of the value that it caches.
  have himage : ∀ {x s} {w : World}, ctl.setting x = some s → Reachable w →
      s.cached w.chip.quiet = false →
      (s.writes w.chip.quiet).map effect = ctl.regs (s.cache w.chip.quiet) := by
    intro x s w hs hw hc
    have hdim : w.chip.quiet.Sound := hw.sound.of_quiet rfl
    rw [Setting.writes_eq hs hb hdim.dim hc, ctl.regs_effect]
  have hcached : s'.cached w₂.chip.quiet = s'.cached w₁.chip.quiet := by
    rw [Setting.cached_quiet, Setting.cached_quiet, Bool.eq_iff_iff,
      Setting.cached_iff hs' hw₂.sound.slope, Setting.cached_iff hs' hw₁.sound.slope, hl.value]
  obtain ⟨-, hchanged, -⟩ := hh.of_error hp
  have hretry := Bus.Puts.retry_iff ctl.regs_image (hh.map effect) (hh'.map effect) hp hp'
    (himage hs hw hchanged) d (himage hs' hw₂) hcached hl.image hl.device
  rw [and_iff_right hread]
  refine hretry.trans ?_
  obtain ⟨saved, hfail⟩ := Setting.failed_eq hs hb w.chip.quiet
  have hregs : ctl.regs (s.failed w.chip.quiet) = ctl.regs (s.leaves w.chip) := by
    rw [hfail, Ctl.regs_saved, Setting.leaves_quiet, ctl.regs_image.view]
  have hleft : s'.cached (s.failed w.chip.quiet).quiet = s'.cached (s.leaves w.chip) := by
    rw [Setting.cached_quiet, hfail, Setting.cached_saved, Setting.leaves_quiet,
      Setting.cached_quiet]
  have hsound : w.chip.quiet.Sound := hw.sound.of_quiet rfl
  have hwrites : (s.writes w.chip.quiet).map effect = s.writes w.chip := calc
    _ = ctl.regs (s.cache w.chip.quiet) := himage hs hw hchanged
    _ = s.writes w.chip.quiet := (Setting.writes_eq hs hb hsound.dim hchanged).symm
    _ = s.writes w.chip := s.writes_quiet _
  rw [hleft, hregs, hwrites]
  rfl

/-- Both sides at `-40` dB: a put of the AN1/2 master. -/
def putMinus40 : ElemValue := { value := fun _ => 101 }

/-- Both sides at the factory default. -/
def putDefault : ElemValue := { value := fun _ => BF_MASTER_STEP_MINUS20 }

/-- A put of the AN1/2 master of which only the first transfer gets through. -/
def cutMasterPut : World :=
  (bfPut clock0 putMinus40 (.master 0) (freshCardWith fun i => i < 1)).2

/-- The old master, put again. -/
def masterPutBack : World := (bfPut clock0 putDefault (.master 0) cutMasterPut).2

/-- A put of a master whose second transfer fails. -/
theorem cutMasterPut_run : ∃ e, bfPut clock0 putMinus40 (.master 0) (freshCardWith fun i => i < 1) =
    (.error e, cutMasterPut) := eq_of_not_isOk (by decide +kernel)

/-- The master is put back. -/
theorem masterPutBack_run : ∃ r, bfPut clock0 putDefault (.master 0) cutMasterPut =
    (.ok r, masterPutBack) := eq_of_isOk (by decide +kernel)

/-- The put of the old value is short-cut, and the first register keeps the value of the failed put. -/
theorem failed_put_not_recovered :
    ¬ ∀ (k k' : Clock) (x x' : ElemValue) (ctl : Ctl) (s' : Setting) (d : Reg → Datum)
      (w w₁ w₂ : World) (e : Errno) (r : ℕ), ctl.regBacked = true → Reachable w →
      ctl.setting x ≠ none → ctl.setting x' = some s' → bfPut k x ctl w = (.error e, w₁) →
      bfPut k' x' ctl w₁ = (.ok r, w₂) → Registers.Holds (contents d w₂.wire) (ctl.regs w₂.chip) := by
  intro hall
  obtain ⟨e, hcut⟩ := cutMasterPut_run
  obtain ⟨r, hback⟩ := masterPutBack_run
  have hdev := hall _ _ _ _ _ _ (fun _ => .word 0) _ _ _ e r rfl (freshCardWith_reachable _)
    (by decide) rfl hcut hback
  have hleft := hdev _ List.mem_cons_self
  exact absurd hleft (by decide +kernel)

/-- The setting of a put of the AN1/2 master. -/
def masterSetting (x : ElemValue) : Setting :=
  .master 0 (.ofInt 16 (x.value 0)) (.ofInt 16 (x.value 1))

/-- Whether the device has recovered from this. -/
theorem failed_put_recovers_iff_fresh :
    (bfGet masterPutBack.chip (.master 0) = (masterSetting putDefault).reading ∧
      Registers.Holds (contents (fun _ => .word 0) masterPutBack.wire)
        ((Ctl.master 0).regs masterPutBack.chip)) ↔
      Recovers (.master 0) (fun _ => .word 0) (masterSetting putMinus40) (masterSetting putDefault)
        (freshCardWith fun i => i < 1) := by
  obtain ⟨e, hcut⟩ := cutMasterPut_run
  obtain ⟨r, hback⟩ := masterPutBack_run
  exact failed_put_recovers_iff rfl (if_pos (by decide)) (if_pos (by decide))
    (freshCardWith_reachable _) hcut (.refl _ _ _) hback

end BabyfacePro
