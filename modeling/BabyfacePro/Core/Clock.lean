import BabyfacePro.Core.Coherence
import BabyfacePro.Lib.Masked
import BabyfacePro.Lib.Relates

/-!
# The device's clock

The device takes its rate from two places: the alternate setting of the interface, and the rate family,
which is a field of the host's settings register. The clock source and the optical format are another
field of it. The controls, the pitch, the cold init and a session's start write the register under
different masks. `Clocked` says that the device and the cache agree; each routine of the driver keeps it,
with any of its transfers failing.
-/

namespace BabyfacePro

open Registers (last Avoids)

/-! ## The host's settings register -/

/-- A write of the register: the index of its request is the mask. -/
def hostWrite : Reg × Datum → Option (Masked.Write 16)
  | (.ctl req idx, .word v) => if req = BF_REQ_KEEPALIVE then some ⟨.ofNat 16 idx, v⟩ else none
  | _ => none

/-- The register after the transfers, when it held `x` before. -/
def hostRegister (x : U16) (wire : List Xfer) : U16 :=
  Masked.run x ((wire.map Xfer.write).filterMap hostWrite)

/-- The field of the clock source and the optical format. -/
def settingsField : U16 := .ofNat 16 BF_REG_KEEPALIVE_SETTINGS

/-- The field of the rate family. -/
def familyField : U16 := .ofNat 16 BF_REG_RATE_FAMILY

/-- The rate family as the field has it. -/
def familyWord (rate : ℕ) : U16 :=
  match bfRateLookup rate with
  | some r => .ofNat 16 (bfRateFamily r <<< 4)
  | none => 0

/-- The family bits of a rate are in the table. -/
theorem familyWord_of_mem {r : BfRate} (h : r ∈ bfRates) :
    familyWord r.rate = .ofNat 16 (bfRateFamily r <<< 4) := by
  rw [familyWord, bfRateLookup_of_mem h]

/-- They are within their field. -/
theorem familyWord_and : ∀ r ∈ bfRates, familyWord r.rate &&& familyField = familyWord r.rate := by decide

/-- The cached settings have no bit outside their field. -/
theorem settingsWord_and (c : Chip) : settingsWord c &&& settingsField = settingsWord c := by
  unfold settingsWord
  cases c.clock_optical <;> cases c.optical_spdif <;> decide

/-- The request of the register, and the interface. -/
def Reg.isHost : Reg → Bool
  | .ctl req _ => req = BF_REQ_KEEPALIVE
  | .iface => true
  | .eq _ => false

/-- The writes leave the interface alone, and set the field `f` to bits of `v`. -/
def Sets (f v : U16) (ws : List (Reg × Datum)) : Prop :=
  ∀ x ∈ ws, x.1 ≠ .iface ∧ ∀ u, hostWrite x = some u → u.val &&& (u.mask &&& f) = v &&& (u.mask &&& f)

section Sets

variable {f v : U16} {ws vs : List (Reg × Datum)}

/-- Writes that set a field carry it to the register. -/
theorem Sets.carries (h : Sets f v ws) : Masked.Carries f v (ws.filterMap hostWrite) := by
  intro u hu
  obtain ⟨x, hx, hxu⟩ := List.mem_filterMap.mp hu
  exact (h x hx).2 u hxu

/-- They set no interface. -/
theorem Sets.iface (h : Sets f v ws) : last ws .iface = none :=
  Avoids.last_eq_none (S := fun a => a = .iface) (fun x hx => (h x hx).1) rfl

/-- Two lists of writes that set the same field. -/
theorem Sets.append (h : Sets f v ws) (h' : Sets f v vs) : Sets f v (ws ++ vs) := fun x hx =>
  (List.mem_append.mp hx).elim (h x) (h' x)

/-- The first of the writes. -/
theorem Sets.take (h : Sets f v ws) (k : ℕ) : Sets f v (ws.take k) := fun x hx =>
  h x (List.mem_of_mem_take hx)

/-- Writes elsewhere. -/
theorem Sets.of_misses (h : Misses Reg.isHost ws) (f v : U16) : Sets f v ws := fun x hx => by
  have hx := h x hx
  refine ⟨fun he => hx (by rw [he]; rfl), fun u hu => ?_⟩
  obtain ⟨a, d⟩ := x
  cases a with
  | ctl req idx =>
    cases d with
    | word w =>
      rw [hostWrite, if_neg fun he => hx (decide_eq_true he)] at hu
      cases hu
    | _ => cases hu
  | _ => cases hu

/-- A write of the register itself. -/
theorem Sets.word {idx : ℕ} {w : U16} (h : w &&& (.ofNat 16 idx &&& f) = v &&& (.ofNat 16 idx &&& f)) :
    Sets f v [word BF_REQ_KEEPALIVE idx w] := fun x hx => by
  rw [List.mem_singleton] at hx
  subst hx
  refine ⟨nofun, fun u hu => ?_⟩
  cases hu
  exact h

/-- A write of the register under a mask that is off the field. -/
theorem Sets.off (idx : ℕ) (h : BitVec.ofNat 16 idx &&& f = 0) (w v : U16) :
    Sets f v [BabyfacePro.word BF_REQ_KEEPALIVE idx w] :=
  .word (Masked.carries_of_disjoint (w := ⟨.ofNat 16 idx, w⟩) h v)

/-- A write that is repeated. -/
theorem Sets.replicate {x : Reg × Datum} (h : Sets f v [x]) (n : ℕ) :
    Sets f v (List.replicate n x) := fun y hy => by
  rw [List.eq_of_mem_replicate hy]
  exact h x List.mem_cons_self

end Sets

/-- The register after more transfers. -/
theorem hostRegister_append {wire wire' : List Xfer} {vs : List (Reg × Datum)}
    (h : wire'.map Xfer.write = wire.map Xfer.write ++ vs) (x : U16) :
    hostRegister x wire' = Masked.run (hostRegister x wire) (vs.filterMap hostWrite) := by
  unfold hostRegister
  rw [h, List.filterMap_append, Masked.run_append]

/-! ## What keeps the device at the cached rate -/

/-- The device and the cache agree about the clock: about the interface and the settings at all times, and
about the rate family in a session. -/
structure Clocked (c : Chip) (wire : List Xfer) : Prop where
  /-- The cached rate is one of the table, with its alternate setting. -/
  rate : ∃ r ∈ bfRates, r.rate = c.rate ∧ r.alt = c.alt
  alt : last (wire.map Xfer.write) .iface = some (.alt c.alt)
  settings (x : U16) : hostRegister x wire &&& settingsField = settingsWord c
  family (h : c.streaming = true) (x : U16) : hostRegister x wire &&& familyField = familyWord c.rate

/-- What the clock depends on. -/
def Chip.clockView (c : Chip) : Bool × ℕ × ℕ × Bool × Bool :=
  (c.streaming, c.rate, c.alt, c.clock_optical, c.optical_spdif)

/-- The settings word is that of the clock source and the optical format. -/
theorem settingsWord_congr {c d : Chip} (hc : d.clock_optical = c.clock_optical)
    (hs : d.optical_spdif = c.optical_spdif) : settingsWord d = settingsWord c := by
  unfold settingsWord
  rw [hc, hs]

/-- What leaves the clock alone, but may end a session. -/
structure OffClock (c d : Chip) : Prop where
  live : d.streaming = true → c.streaming = true
  rate : d.rate = c.rate
  alt : d.alt = c.alt
  clock : d.clock_optical = c.clock_optical
  optical : d.optical_spdif = c.optical_spdif

/-- What leaves the clock alone keeps its agreement. -/
theorem Clocked.offClock {c d : Chip} {wire : List Xfer} (h : Clocked c wire) (ha : OffClock c d) :
    Clocked d wire where
  rate := by
    rw [ha.rate, ha.alt]
    exact h.rate
  alt := by
    rw [ha.alt]
    exact h.alt
  settings x := by
    rw [settingsWord_congr ha.clock ha.optical]
    exact h.settings x
  family hd x := by
    rw [ha.rate]
    exact h.family (ha.live hd) x

/-- Two caches that agree on the clock. -/
theorem Clocked.of_view {c d : Chip} {wire : List Xfer} (h : Clocked c wire)
    (hv : d.clockView = c.clockView) : Clocked d wire := by
  simp only [Chip.clockView, Prod.mk.injEq] at hv
  obtain ⟨hlive, hrate, halt, hclock, hoptical⟩ := hv
  exact h.offClock ⟨fun hd => hlive ▸ hd, hrate, halt, hclock, hoptical⟩

/-- Writes that carry the cached settings and the family of the session. -/
theorem Clocked.write {c : Chip} {wire wire' : List Xfer} {vs : List (Reg × Datum)} (h : Clocked c wire)
    (hw : wire'.map Xfer.write = wire.map Xfer.write ++ vs) (hset : Sets settingsField (settingsWord c) vs)
    (hfam : c.streaming = true → Sets familyField (familyWord c.rate) vs) : Clocked c wire' where
  rate := h.rate
  alt := by
    rw [hw, Registers.last_append, hset.iface, Option.none_or]
    exact h.alt
  settings x := by
    rw [hostRegister_append hw, hset.carries.keeps ((h.settings x).trans (settingsWord_and c).symm),
      settingsWord_and]
  family hc x := by
    obtain ⟨r, hr, hrate, -⟩ := h.rate
    have hown : familyWord c.rate &&& familyField = familyWord c.rate := hrate ▸ familyWord_and r hr
    rw [hostRegister_append hw, (hfam hc).carries.keeps ((h.family hc x).trans hown.symm), hown]

/-- Writes elsewhere. -/
theorem Clocked.misses {c : Chip} {wire wire' : List Xfer} {vs : List (Reg × Datum)} (h : Clocked c wire)
    (hw : wire'.map Xfer.write = wire.map Xfer.write ++ vs) (hvs : Misses Reg.isHost vs) : Clocked c wire' :=
  h.write hw (.of_misses hvs _ _) fun _ => .of_misses hvs _ _

/-- The writes of a device that starts anew: the interface, and then what covers the settings. -/
theorem Clocked.anew {c : Chip} {wire : List Xfer} {vs : List (Reg × Datum)}
    (hrate : ∃ r ∈ bfRates, r.rate = c.rate ∧ r.alt = c.alt) (hidle : c.streaming = false)
    (hw : wire.map Xfer.write = [(.iface, .alt c.alt)] ++ vs) (hset : Sets settingsField (settingsWord c) vs)
    (hcover : ∀ x ∈ settingsRegs c, x ∈ vs) : Clocked c wire where
  rate := hrate
  alt := by
    rw [hw, Registers.last_append, hset.iface, Option.none_or, Registers.last_singleton, if_pos rfl]
  settings x := by
    have hmem : ⟨settingsField, settingsWord c⟩ ∈ vs.filterMap hostWrite :=
      List.mem_filterMap.mpr ⟨_, hcover _ List.mem_cons_self, rfl⟩
    have hreach := hset.carries.reaches (Masked.cover_of_mem hmem BitVec.and_self) x
    rw [settingsWord_and] at hreach
    unfold hostRegister
    rw [hw]
    exact hreach
  family hc := by
    rw [hidle] at hc
    cases hc

/-! ## The lists of writes -/

/-- A word of another request is not for the host register. -/
theorem word_not_host {req : ℕ} (idx : ℕ) (v : U16) (h : req ≠ BF_REQ_KEEPALIVE) :
    ¬ (word req idx v).1.isHost = true := by
  simp [word, Reg.isHost, h]

/-- A crosspoint is not for it. -/
theorem xreg_not_host (idx : ℕ) (v : U16) : ¬ (xreg idx v).1.isHost = true :=
  word_not_host idx v (by decide)

/-- Nor are the crosspoints of a pair. -/
theorem xpointRegs_not_host (out : Out) (src : Src) (l r : U16) :
    Misses Reg.isHost (xpointRegs out src l r) :=
  .cons (xreg_not_host _ _) (.cons (xreg_not_host _ _) .nil)

/-- Nor those of an output. -/
theorem blockRegs_not_host (out : Out) (xpoint : Src → Side → U16) :
    Misses Reg.isHost (blockRegs out xpoint) :=
  .append (.flatMap fun _ _ => xpointRegs_not_host _ _ _ _) <|
    .append (.map fun _ _ => xreg_not_host _ _) (.map fun _ _ => xreg_not_host _ _)

/-- Nor the masters. -/
theorem masterRegs_not_host (out : Out) (l8 r8 : U8) (l16 r16 : U16) :
    Misses Reg.isHost (masterRegs out l8 r8 l16 r16) :=
  .cons (word_not_host _ _ (by decide)) <| .cons (word_not_host _ _ (by decide)) <|
    .cons (xreg_not_host _ _) <| .cons (xreg_not_host _ _) .nil

/-- Nor a gain. -/
theorem gainRegs_not_host (mic : Mic) (db : ℤ) : Misses Reg.isHost (gainRegs mic db) :=
  .cons (word_not_host _ _ (by decide)) .nil

/-- Nor the preamp. -/
theorem preampRegs_not_host (c : Chip) : Misses Reg.isHost (preampRegs c) :=
  .cons (word_not_host _ _ (by decide)) (.cons (word_not_host _ _ (by decide)) .nil)

/-- Nor the links. -/
theorem linkRegs_not_host (linked an12 : Bool) (c : Chip) : Misses Reg.isHost (linkRegs linked an12 c) :=
  .cons (word_not_host _ _ (by decide)) (.cons (word_not_host _ _ (by decide)) .nil)

/-- Nor the loopback map. -/
theorem loopbackRegs_not_host (out : ℤ) (on : Bool) : Misses Reg.isHost (loopbackRegs out on) :=
  .map fun _ _ => word_not_host _ _ (by decide)

/-- Nor the crosspoints of the width. -/
theorem widthRegs_not_host (w : ℤ) : Misses Reg.isHost (widthRegs w) := by
  intro x hx
  simp only [widthRegs, List.mem_cons, List.not_mem_nil, or_false] at hx
  obtain rfl | rfl | rfl | rfl | rfl | rfl | rfl | rfl := hx <;> exact xreg_not_host _ _

/-- Nor the FX send. -/
theorem fxRegs_not_host (v : U16) : Misses Reg.isHost (fxRegs v) :=
  .cons (xreg_not_host _ _) (.cons (xreg_not_host _ _) .nil)

/-- Nor the crosspoints of the MS processing. -/
theorem msRegs_not_host : Misses Reg.isHost msRegs :=
  .cons (xreg_not_host _ _) <| .cons (xreg_not_host _ _) <| .cons (xreg_not_host _ _) <|
    .cons (xreg_not_host _ _) .nil

/-- Nor what a put of it writes. -/
theorem msPutRegs_not_host (on : Bool) (c : Chip) : Misses Reg.isHost (msPutRegs on c) := by
  unfold msPutRegs
  split
  · exact msRegs_not_host
  · exact .append (xpointRegs_not_host _ _ _ _) (xpointRegs_not_host _ _ _ _)

/-- Nor DIM's registers. -/
theorem dimRegs_not_host (on : Bool) (c : Chip) : Misses Reg.isHost (dimRegs on c) :=
  .append (masterRegs_not_host _ _ _ _ _) (.cons (word_not_host _ _ (by decide)) .nil)

/-- Nor the crosspoints of a phase inversion. -/
theorem phaseRegs_not_host (mic : Mic) (invert : Bool) (c : Chip) :
    Misses Reg.isHost (phaseRegs mic invert c) := .map fun _ _ => xreg_not_host _ _

/-- Nor those of a split. -/
theorem splitRegs_not_host (pb : Out) (split : Bool) (c : Chip) :
    Misses Reg.isHost (splitRegs pb split c) := xpointRegs_not_host _ _ _ _

/-- Nor those of a trim. -/
theorem trimRegs_not_host (mic : Mic) (db2 : ℤ) : Misses Reg.isHost (trimRegs mic db2) :=
  .append (xpointRegs_not_host _ _ _ _) (xpointRegs_not_host _ _ _ _)

/-- Nor an EQ block. -/
theorem eqRegs_not_host (strip : Mic) (e : EqChannel) : Misses Reg.isHost (eqRegs strip e) :=
  .map fun _ _ => Bool.false_ne_true

/-- The flags do not concern the clock. -/
theorem flagRegs_not_host (c : Chip) : Misses Reg.isHost (flagRegs c) :=
  .append (loopbackRegs_not_host _ _) <| .append (linkRegs_not_host _ _ c) <|
    .append (.ite fun _ => widthRegs_not_host _) <| .append (fxRegs_not_host _) <|
    .append (.ite fun _ => msRegs_not_host) <| .append (.ite fun _ => dimRegs_not_host true c) <|
    .append (.flatMap fun mic _ => .ite fun _ => phaseRegs_not_host mic true c) <|
    .append (.flatMap fun pb _ => .ite fun _ => splitRegs_not_host pb true c)
      (.flatMap fun mic _ => .ite fun _ => trimRegs_not_host mic _)

/-! ## The writes of the settings and the family -/

section Words

variable (c : Chip)

/-- The settings word sets its own field. -/
theorem settingsRegs_sets : Sets settingsField (settingsWord c) (settingsRegs c) := .word rfl

/-- The quad is no write of the register, the settings that commit it are. -/
theorem pitchRegs_sets (pitch : ℤ) : Sets settingsField (settingsWord c) (pitchRegs pitch c) :=
  have hquad : Misses Reg.isHost ((List.finRange 4).map fun k =>
      word BF_REQ_DDS ((pitchQuad pitch k &&& 0xff) <<< 8 ||| k) (.ofNat 16 (pitchQuad pitch k >>> 8))) :=
    .map fun _ _ => word_not_host _ _ (by decide)
  (Sets.of_misses hquad _ _).append (settingsRegs_sets c)

/-- The settings leave the family as it is. -/
theorem settingsRegs_family (v : U16) : Sets familyField v (settingsRegs c) :=
  .off BF_REG_KEEPALIVE_SETTINGS (by decide) _ v

/-- The varispeed quad leaves the family bits alone. -/
theorem pitchRegs_family (pitch : ℤ) (v : U16) : Sets familyField v (pitchRegs pitch c) :=
  have hquad : Misses Reg.isHost ((List.finRange 4).map fun k =>
      word BF_REQ_DDS ((pitchQuad pitch k &&& 0xff) <<< 8 ||| k) (.ofNat 16 (pitchQuad pitch k >>> 8))) :=
    .map fun _ _ => word_not_host _ _ (by decide)
  (Sets.of_misses hquad _ _).append (settingsRegs_family c v)

/-- The family leaves the settings as they are. -/
theorem clockRegs_sets (r : BfRate) : Sets settingsField (settingsWord c) (clockRegs r c) :=
  (Sets.off BF_REG_RATE_FAMILY (by decide) _ _).append (settingsRegs_sets c)

/-- The cold init writes both in one word. -/
theorem initRegs_sets {r : BfRate} (hr : r ∈ bfRates) :
    Sets settingsField (settingsWord c) (initRegs r c) := by
  have hword : ∀ r ∈ bfRates, ∀ clock optical : Bool,
      (BitVec.ofNat 16 (bfRateFamily r <<< 4) ||| ((if clock then BF_SETTINGS_CLOCK_OPTICAL else
        BF_SETTINGS_CLOCK_INTERNAL) ||| (if optical then BF_SETTINGS_OPTICAL_SPDIF else 0))) &&&
          (.ofNat 16 BF_REG_KEEPALIVE_INIT &&& settingsField) =
        ((if clock then BF_SETTINGS_CLOCK_OPTICAL else BF_SETTINGS_CLOCK_INTERNAL) |||
          (if optical then BF_SETTINGS_OPTICAL_SPDIF else 0)) &&&
            (.ofNat 16 BF_REG_KEEPALIVE_INIT &&& settingsField) := by decide
  have hinit : Sets settingsField (settingsWord c) [word BF_REQ_KEEPALIVE BF_REG_KEEPALIVE_INIT (initWord r c)] :=
    .word (hword r hr _ _)
  have hpreamp : Misses Reg.isHost [word BF_REQ_PREAMP 0x0000 0x000c, word BF_REQ_PREAMP_COMMIT 0x0000 0x0000] :=
    .cons (word_not_host _ _ (by decide)) (.cons (word_not_host _ _ (by decide)) .nil)
  exact ((hinit.append (.of_misses hpreamp _ _)).append
    ((Sets.off 0x3000 (by decide) _ _).replicate 2)).append
      ((Sets.off 0x0800 (by decide) _ _).replicate 3)

/-- What each rate of the table writes sets the field. -/
theorem rateRegs_sets {f v : U16} {ws : BfRate → Chip → List (Reg × Datum)}
    (h : ∀ r ∈ bfRates, Sets f v (ws r c)) : Sets f v (rateRegs ws c) := by
  unfold rateRegs
  split
  · exact .of_misses .nil _ _
  · rename_i r hr
    exact h r (bfRateLookup_some hr).1

/-- The cold init ends with the settings word. -/
theorem coldRegs_sets : Sets settingsField (settingsWord c) (coldRegs c) := by
  have hclear : Misses Reg.isHost (clearList.map fun i => word BF_REQ_REG_CLEAR i 0) :=
    .map fun _ _ => word_not_host _ _ (by decide)
  have hstatus : Misses Reg.isHost [word BF_REQ_STATUS_2 0x0000 0x0000] :=
    .cons (word_not_host _ _ (by decide)) .nil
  exact (Sets.of_misses hclear _ _).append <| (pitchRegs_sets c _).append <|
    (Sets.of_misses hstatus _ _).append <| rateRegs_sets c fun _ hr => initRegs_sets c hr

/-- So does the replay. -/
theorem restoreRegs_sets : Sets settingsField (settingsWord c) (restoreRegs c) := by
  have hmixer : Misses Reg.isHost (preampRegs c ++ ((List.finRange 4).flatMap (fun mic =>
      gainRegs mic (c.gain mic).toNat) ++ ((List.finRange 6).flatMap (fun out =>
        outRegs out (c.muted out) false (c.master out 0) (c.master out 1)) ++
          (List.finRange 6).flatMap fun out => blockRegs out (c.xpoint out)))) :=
    .append (preampRegs_not_host c) <| .append (.flatMap fun _ _ => gainRegs_not_host _ _) <|
      .append (.flatMap fun _ _ => masterRegs_not_host _ _ _ _ _) (.flatMap fun _ _ => blockRegs_not_host _ _)
  have h := (Sets.of_misses hmixer settingsField (settingsWord c)).append <|
    (rateRegs_sets c fun r _ => clockRegs_sets c r).append (pitchRegs_sets c c.pitch)
  simpa only [restoreRegs, List.append_assoc] using h

end Words

/-! ## Puts and polls -/

/-- New settings, written on their own. -/
theorem Clocked.settle {c d : Chip} {wire wire' : List Xfer} (h : Clocked c wire)
    (hd : d.toStream = c.toStream) (hw : wire'.map Xfer.write = wire.map Xfer.write ++ settingsRegs d) :
    Clocked d wire' := by
  refine ⟨?_, ?_, fun x => ?_, fun hlive x => ?_⟩
  · rw [hd]
    exact h.rate
  · rw [hw, Registers.last_append, (settingsRegs_sets d).iface, Option.none_or, hd]
    exact h.alt
  · have hmem : ⟨settingsField, settingsWord d⟩ ∈ (settingsRegs d).filterMap hostWrite := List.mem_cons_self
    have hcover := Masked.cover_of_mem hmem BitVec.and_self
    rw [hostRegister_append hw, (settingsRegs_sets d).carries.reaches hcover, settingsWord_and]
  · obtain ⟨r, hr, hrate, -⟩ := h.rate
    rw [hd] at hlive ⊢
    have hown : familyWord c.rate &&& familyField = familyWord c.rate := hrate ▸ familyWord_and r hr
    rw [hostRegister_append hw,
      (settingsRegs_family d (familyWord c.rate)).carries.keeps ((h.family hlive x).trans hown.symm), hown]

namespace Setting

variable (s : Setting) (c : Chip)

/-- A setting, and its failure, leave the stream's part of the card alone. -/
theorem stream : (s.cache c).toStream = c.toStream ∧ (s.failed c).toStream = c.toStream := by
  cases s <;> exact ⟨rfl, rfl⟩

/-- A failed put leaves the settings as they were. -/
theorem failed_clock (hs : s.cached c = false) :
    (s.failed c).clock_optical = c.clock_optical ∧ (s.failed c).optical_spdif = c.optical_spdif := by
  have hnot : ∀ a b : Bool, (a == b) = false → (!a) = b := by decide
  cases s with
  | clock on => exact ⟨hnot _ _ hs, rfl⟩
  | optical spdif => exact ⟨rfl, hnot _ _ hs⟩
  | _ => exact ⟨rfl, rfl⟩

/-- The puts of the clock source and of the optical format write the settings that they cache, and no
other put changes them. -/
theorem writes_clock : s.writes c = settingsRegs (s.cache c) ∨
    settingsWord (s.cache c) = settingsWord c ∧
      ((∃ p, s.writes c = pitchRegs p c) ∨ Misses Reg.isHost (s.writes c)) := by
  -- The host register is written by these two settings and the pitch alone.
  cases s with
  | clock on => exact .inl rfl
  | optical spdif => exact .inl rfl
  | pitch p => exact .inr ⟨rfl, .inl ⟨p, rfl⟩⟩
  | master out l r => exact .inr ⟨rfl, .inr (masterRegs_not_host _ _ _ _ _)⟩
  | mute out muted => exact .inr ⟨rfl, .inr (masterRegs_not_host _ _ _ _ _)⟩
  | xpoint out src l r => exact .inr ⟨rfl, .inr (xpointRegs_not_host _ _ _ _)⟩
  | phase mic invert => exact .inr ⟨rfl, .inr (phaseRegs_not_host _ _ _)⟩
  | split pb on => exact .inr ⟨rfl, .inr (splitRegs_not_host _ _ _)⟩
  | trim mic db => exact .inr ⟨rfl, .inr (trimRegs_not_host _ _)⟩
  | preampBit bit on => exact .inr ⟨rfl, .inr (preampRegs_not_host _)⟩
  | refLevel item => exact .inr ⟨rfl, .inr (preampRegs_not_host _)⟩
  | gain mic db => exact .inr ⟨rfl, .inr (gainRegs_not_host _ _)⟩
  | loopback out on => exact .inr ⟨rfl, .inr (loopbackRegs_not_host _ _)⟩
  | an12 on => exact .inr ⟨rfl, .inr (linkRegs_not_host _ _ _)⟩
  | link linked => exact .inr ⟨rfl, .inr (linkRegs_not_host _ _ _)⟩
  | ms on => exact .inr ⟨rfl, .inr (msPutRegs_not_host _ _)⟩
  | dim on => exact .inr ⟨rfl, .inr (dimRegs_not_host _ _)⟩
  | width w => exact .inr ⟨rfl, .inr (widthRegs_not_host _)⟩
  | fxSend v => exact .inr ⟨rfl, .inr (fxRegs_not_host _)⟩
  | eq strip p v => exact .inr ⟨rfl, .inr (eqRegs_not_host _ _)⟩

end Setting

/-- With the place in the flag cycle, or without. -/
theorem Clocked.of_quiet {c d : Chip} {wire : List Xfer} (h : Clocked c wire) (hq : d.quiet = c.quiet) :
    Clocked d wire := by
  rw [Chip.quiet_eq hq]
  exact h.of_view rfl

/-- A put that gets as far as its first `k` writes. -/
theorem Clocked.put {s : Setting} {c d : Chip} {wire wire' : List Xfer} {k : ℕ} (h : Clocked c wire)
    (hs : s.cached c = false) (hk : k ≤ (s.writes c).length)
    (hd : d.quiet = (if k = (s.writes c).length then s.cache c else s.failed c).quiet)
    (hw : wire'.map Xfer.write = wire.map Xfer.write ++ (s.writes c).take k) : Clocked d wire' := by
  refine Clocked.of_quiet ?_ hd
  obtain ⟨hclock, hoptical⟩ := s.failed_clock c hs
  obtain ⟨hcache, hfailed⟩ := s.stream c
  -- A put that failed leaves the cached clock alone.
  have hback : ∀ {v : List Xfer}, Clocked c v → Clocked (s.failed c) v := fun hv =>
    hv.offClock ⟨fun hl => by rw [hfailed] at hl; exact hl, by rw [hfailed], by rw [hfailed], hclock, hoptical⟩
  obtain hset | ⟨hsame, hvs⟩ := s.writes_clock c
  · by_cases hall : k = (s.writes c).length
    · rw [if_pos hall]
      rw [hall, List.take_length, hset] at hw
      exact h.settle hcache hw
    · -- The settings are one write, which did not get through.
      have hnone : k = 0 := by
        have hone : (settingsRegs (s.cache c)).length = 1 := rfl
        rw [hset] at hk hall
        omega
      rw [if_neg hall]
      rw [hnone, List.take_zero, List.append_nil] at hw
      have hstill : Misses Reg.isHost [] := .nil
      exact hback (h.misses (by rw [hw, List.append_nil]) hstill)
  · have hsets : Clocked c wire' := by
      obtain ⟨p, hp⟩ | hmiss := hvs
      · rw [hp] at hw
        exact h.write hw ((pitchRegs_sets c p).take k) fun _ => (pitchRegs_family c p _).take k
      · exact h.misses hw fun x hx => hmiss x (List.mem_of_mem_take hx)
    split
    · refine ⟨?_, ?_, fun x => (hsets.settings x).trans hsame.symm, fun hl x => ?_⟩
      · rw [hcache]
        exact hsets.rate
      · rw [hcache]
        exact hsets.alt
      · rw [hcache] at hl ⊢
        exact hsets.family hl x
    · exact hback hsets

/-- Whatever a routine does besides, it keeps the device at the cached rate. -/
def Clocks (w w' : World) : Prop := Clocked w.chip w.wire → Clocked w'.chip w'.wire

/-- A put leaves the clock in agreement, or sends what it changes. -/
theorem bfPut_clocks (k : Clock) (x : ElemValue) (ctl : Ctl) : Bus.Relates Clocks (bfPut k x ctl) := by
  intro w h
  obtain ⟨s, -, hh⟩ | ⟨pair, rfl⟩ | ⟨-, hr⟩ := bfPut_cases k x ctl
  -- A value that was cached sends nothing.
  · cases hs : s.cached w.chip.quiet with
    | true =>
      rw [hh.unchanged w hs]
      exact h
    | false =>
      obtain ⟨-, hc, hw, -⟩ := hh.changed w hs
      exact (h.of_quiet (Chip.quiet_quiet w.chip)).put hs (Bus.delivered_le _ _) hc hw
  -- The panel's selection is not the clock's.
  · have hsel : Bus.Frames Xfer.write (fun c d : Chip => d.clockView = c.clockView)
        (fun x => ¬ x.1.isHost = true) (fun _ => True) (bfPanelSelectPut k pair x.item) :=
      bfPanelSelectPut_keeps (Bus.Framing.view Chip.clockView) (fun _ => rfl) (fun _ _ _ => rfl)
        (fun _ => rfl) (fun _ => rfl) k pair _
    obtain ⟨vs, hw, hmiss⟩ := hsel.wire w
    exact (h.of_view (hsel.state w)).misses hw hmiss
  · obtain ⟨e, -, hp⟩ := hr w
    rw [hp]
    exact h

/-- A poll writes neither the interface nor the register. -/
theorem babyfacePanelWork_clocks (p : Poll) (t : ℤ) : Bus.Relates Clocks (babyfacePanelWork p t) := by
  have hR := Bus.Framing.view Chip.clockView
  -- Every stage of a tick leaves the interface and the register alone.
  have hpanel : ∀ c d : Chip, d.toStream = c.toStream → d.toMixer = c.toMixer → d.eq = c.eq →
      d.clockView = c.clockView := fun c d hs hm _ => by
    unfold Chip.clockView
    rw [hs, hm]
  have hW : WheelFrame (fun c d : Chip => d.clockView = c.clockView) fun x => ¬ x.1.isHost = true :=
    ⟨hR, fun _ _ => rfl, fun _ _ => word_not_host _ _ (by decide), fun _ _ => xreg_not_host _ _⟩
  have hmix : MixXfers fun x : Reg × Datum => ¬ x.1.isHost = true := by
    constructor <;> decide
  have hset : Bus.Frames Xfer.write (fun c d : Chip => d.clockView = c.clockView)
      (fun x => ¬ x.1.isHost = true) (fun _ => True) (tickSet p.st) :=
    tickSet_frames hR (fun _ _ => rfl) (fun _ _ => rfl) (fun _ => word_not_host _ _ (by decide))
      (fun _ => word_not_host _ _ (by decide)) _
  have hdecode : Bus.Frames Xfer.write (fun c d : Chip => d.clockView = c.clockView)
      (fun x => ¬ x.1.isHost = true) (fun _ => True) (decode p) := by
    rw [decode_eq]
    exact hR.bind (decodeHead_frames hW hpanel (fun _ _ _ _ => rfl) (fun _ _ _ _ _ => rfl)
      (fun _ _ => rfl) p) fun _ => hR.bind (decodeMid_panel hW trivial hpanel p) fun _ =>
        hR.bind hset fun _ => decodeTail_panel hW hmix hpanel p
  have htick : Bus.Frames Xfer.write (fun c d : Chip => d.clockView = c.clockView)
      (fun x => ¬ x.1.isHost = true) (fun _ => True) (bfPanelTick p) :=
    hR.bind (hR.attempt (hR.recv (X := fun _ => True) trivial ())) fun _ => hR.when _ fun _ =>
      hR.bind hR.get fun _ => hR.ite _ (fun _ => hdecode) fun _ => hR.modify fun _ => rfl
  have hwork : Bus.Frames Xfer.write (fun c d : Chip => d.clockView = c.clockView)
      (fun x => ¬ x.1.isHost = true) (fun _ => True) (babyfacePanelWork p t) :=
    hR.bind hR.get fun _ => hR.when _ fun _ => hR.bind htick fun _ => hR.modify fun _ => rfl
  -- What the poll writes misses the register, and the clock's cache is unchanged.
  intro w h
  obtain ⟨vs, hw, hmiss⟩ := hwork.wire w
  exact (h.of_view (hwork.state w)).misses hw hmiss

/-! ## The device anew: a probe, and a resume -/

/-- The cold init writes the settings. -/
theorem settingsRegs_cold (c : Chip) : ∀ x ∈ settingsRegs c, x ∈ coldRegs c := fun _ hx =>
  List.mem_append_right _ <| List.mem_append_left _ <| List.mem_append_right _ hx

/-- A resume that gets through leaves the host register and the interface in agreement. -/
theorem babyfaceResume_clocked {jiffies : ℤ} {w w' : World} (hw : w.wire = []) (hd : w.chip.DimSaved)
    (hrate : ∃ r ∈ bfRates, r.rate = w.chip.rate ∧ r.alt = w.chip.alt) (hidle : w.chip.streaming = false)
    (h : babyfaceResume jiffies w = (.ok (), w')) : Clocked w'.chip w'.wire := by
  unfold babyfaceResume at h
  obtain ⟨_, w₁, h₁, h⟩ := Bus.M.bind_eq_ok h
  cases h
  obtain ⟨hreplayed, vs, hblocks, hwire⟩ := bfResumeLocked_run hd h₁
  -- The EQ's blocks are no host register.
  have heq : Misses Reg.isHost vs := fun x hx => by
    obtain ⟨ch, b, rfl⟩ := hblocks x hx
    exact Bool.false_ne_true
  -- Every write of the register in the replay carries the settings of the cache.
  have hsets : Sets settingsField (settingsWord w.chip.quiet)
      (coldRegs w.chip.quiet ++ (restoreRegs w.chip.quiet ++ flagRegs w.chip.quiet) ++ vs) :=
    ((coldRegs_sets _).append ((restoreRegs_sets _).append (.of_misses (flagRegs_not_host _) _ _))).append
      (.of_misses heq _ _)
  -- The replay starts from an empty log, and writes the register in its first part.
  have hanew : Clocked w.chip.quiet w₁.wire :=
    .anew hrate hidle (by rw [hwire, hw, resumeRegs]; simp only [List.map_nil, List.nil_append, List.append_assoc])
      hsets fun x hx => List.mem_append_left _ (List.mem_append_left _ (settingsRegs_cold _ x hx))
  have hchip : Clocked w.chip w₁.wire := hanew.of_quiet (Chip.quiet_quiet w.chip).symm
  have hview : w₁.chip.clockView = w.chip.clockView := by
    unfold Chip.clockView
    rw [hreplayed.stream, hreplayed.mixer]
  exact hchip.of_view hview

/-- A probe leaves them in agreement. -/
theorem Probed.clocked {st0 : U8} {reprobe : Bool} {jiffies : ℤ} {p : Params} {w : World}
    (h : Probed st0 reprobe jiffies p w) : Clocked w.chip w.wire := by
  obtain ⟨st, hq, hw⟩ := babyfaceProbe_run h
  have hview : w.chip.clockView = (probedChip st reprobe jiffies p).clockView := by
    rw [← hq]
    rfl
  -- Whichever way the readback went, a new card has the first row of the rates and no session.
  have hfresh : (probedChip st reprobe jiffies p).clockView = (false, 48000, BF_ALT_1, false, false) := by
    cases st <;> rfl
  have hsets : Sets settingsField (settingsWord (probeChip p)) (coldRegs (probeChip p) ++
      (defaultMixerRegs (readChip st p) ++ flagRegs (probedMixer st p))) := by
    -- The mixer's part of the probe misses the register.
    have hmixer : Misses Reg.isHost ((List.finRange 6).flatMap defaultMasterRegs ++
        (List.finRange 6).flatMap fun out => blockRegs out fun src _ => defaultLevel src) :=
      .append (.flatMap fun _ _ => masterRegs_not_host _ _ _ _ _) (.flatMap fun _ _ => blockRegs_not_host _ _)
    have hsettings : settingsWord (probeChip p) = settingsWord (cacheDefaultMixer (readChip st p)) := by
      cases st <;> rfl
    refine (coldRegs_sets _).append (.append ?_ (.of_misses (flagRegs_not_host _) _ _))
    rw [hsettings]
    have h := (Sets.of_misses hmixer settingsField _).append
      (settingsRegs_sets (cacheDefaultMixer (readChip st p)))
    simpa only [defaultMixerRegs, List.append_assoc] using h
  -- The default alternate setting is the first row's.
  have hanew : Clocked (probeChip p) w.wire := .anew ⟨⟨48000, BF_ALT_1, 56, 8⟩, by decide, rfl, rfl⟩ rfl hw hsets
    fun x hx => List.mem_append_left _ (settingsRegs_cold _ x hx)
  exact hanew.of_view (hview.trans hfresh)

/-! ## A new rate, and a session's start -/

/-- The interface is switched before the rate is cached, and in no session. -/
theorem bfRetune_clocked {r : BfRate} (hr : r ∈ bfRates) {w : World} (h : Clocked w.chip w.wire)
    (hidle : w.chip.streaming = false) : Clocked (bfRetune r w).2.chip (bfRetune r w).2.wire := by
  unfold bfRetune
  cases h0 : w.usb 0 with
  -- A failed switch leaves the rate as it was.
  | false =>
    have hset : usbSetInterface r.alt w = (.error .usb, { w with usb := Bus.shift w.usb 1 }) :=
      if_neg (by simp [h0])
    rw [Bus.M.bind_of_error hset]
    exact h
  | true =>
    -- A switch that got through is logged before the rate is cached.
    have hset : usbSetInterface r.alt w =
        (.ok (), { w with wire := w.wire ++ [.setInterface r.alt], usb := Bus.shift w.usb 1 }) :=
      if_pos h0
    have hswitched : Clocked { w.chip with rate := r.rate, alt := r.alt, frame_bytes := r.frame_bytes }
        (w.wire ++ [Xfer.setInterface r.alt]) := by
      have hwire : (w.wire ++ [Xfer.setInterface r.alt]).map Xfer.write =
          w.wire.map Xfer.write ++ [(.iface, .alt r.alt)] := List.map_append
      refine ⟨⟨r, hr, rfl, rfl⟩, ?_, fun x => ?_, fun hl => ?_⟩
      · rw [hwire, Registers.last_append, Registers.last_singleton, if_pos rfl, Option.some_or]
      · rw [hostRegister_append hwire]
        exact h.settings x
      · exact absurd (hidle.symm.trans hl) Bool.false_ne_true
    -- The blocks that follow are the EQ's, and miss the interface and the register.
    have hblocks : Bus.Frames Xfer.write (fun c d : Chip => d.clockView = c.clockView)
        (fun x => ¬ x.1.isHost = true) (fun _ => True) bfEqReupload :=
      bfEqReupload_frames (Bus.Framing.view Chip.clockView)
        (fun c c' d d' hc hd hcd => by
          rw [Chip.quiet_eq hc, Chip.quiet_eq hd]
          exact hcd)
        (fun _ _ => rfl) fun _ _ => Bool.false_ne_true
    rw [Bus.M.bind_of_ok hset, Bus.M.bind_of_ok (Bus.M.modify_run _ _)]
    obtain ⟨vs, hw, hmiss⟩ := hblocks.wire _
    exact (hswitched.of_view (hblocks.state _)).misses hw hmiss

/-- The writes of a session's start before its URBs. -/
def triggerRegs (r : BfRate) (c : Chip) : List (Reg × Datum) :=
  clockRegs r c ++ [word BF_REQ_KEEPALIVE 0x8000 0x0000, word BF_REQ_SESSION_START 0x0000 0x0000]

/-- The start of a session writes the registers of the cached rate. -/
theorem bfSessionTrigger_at {r : BfRate} {w : World} (hr : bfRateLookup w.chip.rate = some r) :
    ∃ m, bfSessionTrigger w = m w ∧ Writes m (triggerRegs r) := by
  have hfam : Writes (bfVendorWrite BF_REQ_KEEPALIVE (.ofNat 16 (bfRateFamily r <<< 4)) BF_REG_RATE_FAMILY)
      fun _ => [word BF_REQ_KEEPALIVE BF_REG_RATE_FAMILY (.ofNat 16 (bfRateFamily r <<< 4))] :=
    bfVendorWrite_writes _ _ (by decide)
  have htrigger : Writes (do
      bfVendorWrite BF_REQ_KEEPALIVE 0x0000 0x8000
      bfVendorWrite BF_REQ_SESSION_START 0x0000 0x0000) fun _ =>
        [word BF_REQ_KEEPALIVE 0x8000 0x0000, word BF_REQ_SESSION_START 0x0000 0x0000] :=
    (bfVendorWrite_writes _ _ (by decide)).seq (bfVendorWrite_writes _ _ (by decide))
  refine ⟨_, ?_, (hfam.seq bfSettingsWrite_writes).seq htrigger⟩
  unfold bfSessionTrigger bfClockWrite withRate
  rw [bind_assoc, Bus.M.bind_of_ok (Bus.M.get_run w), hr]

/-- Where no session is, a start brings the family to the cached rate before its URBs, or fails. -/
theorem bfSessionTrigger_clocked {w : World} (h : Clocked w.chip w.wire) (hidle : w.chip.streaming = false) :
    Clocked (bfSessionTrigger w).2.chip (bfSessionTrigger w).2.wire ∧
      ∀ w', bfSessionTrigger w = (.ok (), w') → ∀ x,
        hostRegister x w'.wire &&& familyField = familyWord w'.chip.rate := by
  obtain ⟨r, hr, hrate, -⟩ := h.rate
  have hfound : bfRateLookup w.chip.rate = some r := hrate ▸ bfRateLookup_of_mem hr
  obtain ⟨m, hm, hwrites⟩ := bfSessionTrigger_at hfound
  have hlive : ¬ w.chip.streaming = true := by
    rw [hidle]
    exact Bool.false_ne_true
  have htrigger : Misses Reg.isHost [word BF_REQ_SESSION_START 0x0000 0x0000] :=
    .cons (word_not_host _ _ (by decide)) .nil
  -- The trigger after the clock writes a bit of its own, outside the field.
  have hsets : ∀ f v : U16, BitVec.ofNat 16 0x8000 &&& f = 0 → Sets f v (clockRegs r w.chip.quiet) →
      Sets f v (triggerRegs r w.chip.quiet) := fun f v hoff hclock => by
    have hrest := (Sets.off 0x8000 hoff 0x0000 v).append (.of_misses htrigger f v)
    exact hclock.append hrest
  rw [hm]
  refine ⟨?_, fun w' hrun x => ?_⟩
  -- However far the start comes, it only sends what keeps the settings.
  · obtain ⟨-, hc, hw, -⟩ := hwrites w
    have hquiet : Clocked (m w).2.chip w.wire := h.of_quiet hc
    have hsame : (m w).2.chip.streaming = w.chip.streaming ∧
        settingsWord (m w).2.chip = settingsWord w.chip.quiet := by
      rw [Chip.quiet_eq hc]
      exact ⟨rfl, rfl⟩
    refine hquiet.write hw ?_ fun hl => absurd (hsame.1.symm.trans hl) hlive
    rw [hsame.2]
    exact (hsets _ _ (by decide) (clockRegs_sets _ r)).take _
  -- A start that got through has written the family of the cached rate.
  · obtain ⟨hc, hw, -⟩ := hwrites.run_ok hrun
    have hword : familyWord w'.chip.rate = .ofNat 16 (bfRateFamily r <<< 4) := by
      rw [Chip.quiet_eq hc]
      show familyWord w.chip.rate = _
      rw [← hrate, familyWord_of_mem hr]
    have hown : familyWord w'.chip.rate &&& familyField = familyWord w'.chip.rate := by
      rw [Chip.quiet_eq hc]
      show familyWord w.chip.rate &&& familyField = familyWord w.chip.rate
      exact hrate ▸ familyWord_and r hr
    have hfamily : Sets familyField (familyWord w'.chip.rate) (triggerRegs r w.chip.quiet) := by
      have hfirst : Sets familyField (familyWord w'.chip.rate)
          [word BF_REQ_KEEPALIVE BF_REG_RATE_FAMILY (.ofNat 16 (bfRateFamily r <<< 4))] := .word (by rw [hword])
      exact hsets _ _ (by decide) (hfirst.append (settingsRegs_family _ _))
    have hmem : ⟨familyField, .ofNat 16 (bfRateFamily r <<< 4)⟩ ∈
        (triggerRegs r w.chip.quiet).filterMap hostWrite :=
      List.mem_filterMap.mpr ⟨_, List.mem_append_left _ List.mem_cons_self, rfl⟩
    rw [hostRegister_append hw,
      hfamily.carries.reaches (Masked.cover_of_mem hmem BitVec.and_self), hown]

end BabyfacePro
