import Mathlib.Logic.Function.Basic

/-!
# Grace periods

Objects that are published for readers without a lock. A reader enters a section, loads what is
published, and leaves the section with nothing; there may be any number of readers. An object that is
retracted may still be held, so its owner waits for the sections that are open at that moment, and for no
others. `Sound.unheld` is what the wait is for: after it, nobody holds the object.
-/

namespace Grace

/-- Readers `ρ` and the objects `δ` that are published for them. -/
structure Rcu (ρ δ : Type*) where
  /-- The pointer to the object is not null. -/
  published : δ → Bool
  /-- The reader is in a section. -/
  reading : ρ → Bool
  /-- The reader has loaded the pointer in its section and found the object. -/
  held : ρ → δ → Bool
  /-- The sections that the owner of the object waits for. -/
  owed : δ → ρ → Bool

namespace Rcu

variable {ρ δ : Type*}

/-- The wait for the open sections is over. -/
def Over (g : Rcu ρ δ) (d : δ) : Prop := ∀ r, g.owed d r = false

/-- Nothing is published, and there are no readers. -/
def fresh : Rcu ρ δ := ⟨fun _ => false, fun _ => false, fun _ _ => false, fun _ _ => false⟩

/-- What is held is held in a section, and is published or waited for. -/
structure Sound (g : Rcu ρ δ) : Prop where
  reading {r : ρ} {d : δ} : g.held r d = true → g.reading r = true
  owed {r : ρ} {d : δ} : g.held r d = true → g.published d = true ∨ g.owed d r = true

/-- With no readers nothing is held. -/
theorem sound_fresh : (fresh : Rcu ρ δ).Sound := ⟨nofun, nofun⟩

/-- An object that is not published, and whose wait is over, is held by nobody. -/
theorem Sound.unheld {g : Rcu ρ δ} (h : g.Sound) {d : δ} (hp : g.published d = false)
    (ho : g.Over d) (r : ρ) : g.held r d = false := by
  apply Bool.eq_false_iff.mpr
  intro hheld
  rcases h.owed hheld with hpub | howed
  · simp [hp] at hpub
  · simp [ho r] at howed

section Readers

variable [DecidableEq ρ]

/-- A reader enters a section. -/
def enter (g : Rcu ρ δ) (r : ρ) : Rcu ρ δ := { g with reading := Function.update g.reading r true }

/-- A reader leaves its section, with nothing. -/
def leave (g : Rcu ρ δ) (r : ρ) : Rcu ρ δ :=
  { g with
    reading := Function.update g.reading r false
    held := Function.update g.held r fun _ => false
    owed := fun d => Function.update (g.owed d) r false }

/-- A reader that enters its section holds nothing yet. -/
theorem Sound.enter {g : Rcu ρ δ} (h : g.Sound) (r : ρ) : (g.enter r).Sound where
  reading {q d} hq := by
    have hold : g.reading q = true := h.reading hq
    simp only [Rcu.enter, Function.update_apply]
    split
    · rfl
    · exact hold
  owed hq := h.owed hq

/-- A reader that leaves its section holds nothing, and is waited for no more. -/
theorem Sound.leave {g : Rcu ρ δ} (h : g.Sound) (r : ρ) : (g.leave r).Sound := by
  have hleave {q : ρ} {d : δ} (hq : (g.leave r).held q d = true) : q ≠ r ∧ g.held q d = true := by
    simp only [Rcu.leave, Function.update_apply] at hq
    split at hq
    · cases hq
    · next hne => exact ⟨hne, hq⟩
  constructor
  · intro q d hq
    obtain ⟨hne, hold⟩ := hleave hq
    exact (Function.update_of_ne hne ..).trans (h.reading hold)
  · intro q d hq
    obtain ⟨hne, hold⟩ := hleave hq
    exact (h.owed hold).imp_right fun howed => (Function.update_of_ne hne ..).trans howed

end Readers

section Objects

variable [DecidableEq δ]

/-- The object `d` is published. -/
def publish (g : Rcu ρ δ) (d : δ) : Rcu ρ δ :=
  { g with published := Function.update g.published d true }

/-- The pointer to `d` is cleared, and its owner waits for the sections that are open. -/
def retract (g : Rcu ρ δ) (d : δ) : Rcu ρ δ :=
  { g with
    published := Function.update g.published d false
    owed := Function.update g.owed d g.reading }

/-- What was held stays published. -/
theorem Sound.publish {g : Rcu ρ δ} (h : g.Sound) (d : δ) : (g.publish d).Sound where
  reading hq := h.reading hq
  owed {q e} hq := by
    refine (h.owed hq).imp_left fun hpub => ?_
    simp only [Rcu.publish, Function.update_apply]
    split
    · rfl
    · exact hpub

/-- The wait covers every reader that holds the object. -/
theorem Sound.retract {g : Rcu ρ δ} (h : g.Sound) (d : δ) : (g.retract d).Sound where
  reading hq := h.reading hq
  owed {q e} hq := by
    have hold : g.held q e = true := hq
    simp only [Rcu.retract, Function.update_apply]
    split
    · exact .inr (h.reading hold)
    · exact h.owed hold

end Objects

variable [DecidableEq ρ] [DecidableEq δ]

/-- A reader loads the pointer to `d`. -/
def load (g : Rcu ρ δ) (r : ρ) (d : δ) : Rcu ρ δ :=
  { g with held := fun q e => g.held q e || (decide (q = r ∧ e = d) && g.published e) }

/-- A reader holds what it finds published. -/
theorem Sound.load {g : Rcu ρ δ} (h : g.Sound) {r : ρ} (hr : g.reading r = true) (d : δ) :
    (g.load r d).Sound := by
  -- What is held afterwards was held before, or is what the reader has just found published.
  have hload {q : ρ} {e : δ} (hq : (g.load r d).held q e = true) :
      g.held q e = true ∨ q = r ∧ g.published e = true := by
    simp only [Rcu.load, Bool.or_eq_true, Bool.and_eq_true, decide_eq_true_eq] at hq
    exact hq.imp_right fun ⟨⟨hqr, _⟩, hpub⟩ => ⟨hqr, hpub⟩
  constructor
  · intro q e hq
    rcases hload hq with hold | ⟨rfl, -⟩
    · exact h.reading hold
    · exact hr
  · intro q e hq
    rcases hload hq with hold | ⟨-, hpub⟩
    · exact h.owed hold
    · exact .inl hpub

end Rcu

end Grace
