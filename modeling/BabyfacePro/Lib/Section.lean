import Mathlib.Logic.Relation
import Mathlib.Tactic.Common

/-!
# Sections under a lock, between the steps of others

A section is what one thread does while it holds a lock, as a sequence of atomic acts on a shared state
`σ`. Threads without the lock step in between: their steps are a relation `R`, and a section can only
rely on what `R` keeps. `Triple` is the Hoare logic of sections, `Step` the system of the lock, the
sections that wait for it and the other threads, and `Held.run` is what the two are for: an invariant
that every section restores holds whenever the lock is free.

An act may carry a label `ι`. What is assumed of the acts with a label is a condition on the state in
which they are taken.
-/

namespace Section

variable {σ ι ε δ α β γ : Type}

/-- A section. An act waits until its guard holds, changes the state, and goes on by the state that it
found. -/
inductive Prog (σ ι ε α : Type) where
  | ret (a : α)
  | throw (e : ε)
  | act (i : Option ι) (guard : σ → Prop) (step : σ → σ) (next : σ → Prog σ ι ε α)

namespace Prog

/-- A section, and what follows its result. -/
def settle (p : Prog σ ι ε α) (f : α → Prog σ ι δ β) (g : ε → Prog σ ι δ β) : Prog σ ι δ β :=
  match p with
  | ret a => f a
  | throw e => g e
  | act i guard step next => act i guard step fun s => (next s).settle f g

/-- A program goes on with its value; an error ends it. -/
instance : Monad (Prog σ ι ε) where
  pure := ret
  bind p f := p.settle f throw

/-- An act that changes the state. -/
def change (i : Option ι) (guard : σ → Prop) (step : σ → σ) : Prog σ ι ε Unit :=
  act i guard step fun _ => ret ()

/-- A section after whose failure another one runs, before the error is returned. -/
def onError (p : Prog σ ι ε α) (q : Prog σ ι ε Unit) : Prog σ ι ε α :=
  p.settle ret fun e => q.settle (fun _ => throw e) throw

/-- A loop over a list, which an error leaves. -/
def each (l : List β) (f : β → Prog σ ι ε Unit) : Prog σ ι ε Unit :=
  match l with
  | [] => ret ()
  | b :: l => do f b; each l f

/-- A section that runs if a condition holds. -/
def when (b : Bool) (p : Prog σ ι ε Unit) : Prog σ ι ε Unit := if b then p else pure ()

/-! ## A section alone -/

/-- What a section does if no other thread takes a step. -/
def run : Prog σ ι ε α → σ → Except ε α × σ
  | ret a, s => (.ok a, s)
  | throw e, s => (.error e, s)
  | act _ _ step next, s => (next s).run (step s)

/-- A run of `settle` is a run of its program and of what takes the result. -/
theorem settle_run (p : Prog σ ι ε α) (f : α → Prog σ ι δ β) (g : ε → Prog σ ι δ β) (s : σ) :
    (p.settle f g).run s =
      match p.run s with
      | (.ok a, s') => (f a).run s'
      | (.error e, s') => (g e).run s' := by
  induction p generalizing s with
  | ret a => rfl
  | throw e => rfl
  | act i guard step next ih => exact ih s (step s)

/-- A run of two programs is a run of the one and, unless that fails, of the other. -/
theorem bind_run (p : Prog σ ι ε α) (f : α → Prog σ ι ε β) (s : σ) :
    (p >>= f).run s =
      match p.run s with
      | (.ok a, s') => (f a).run s'
      | (.error e, s') => (.error e, s') := settle_run p f throw s

/-- What takes a result may itself be settled first. -/
theorem settle_assoc {ζ : Type} (p : Prog σ ι ε α) (f : α → Prog σ ι δ β) (g : ε → Prog σ ι δ β)
    (f' : β → Prog σ ι ζ γ) (g' : δ → Prog σ ι ζ γ) :
    (p.settle f g).settle f' g' =
      p.settle (fun a => (f a).settle f' g') fun e => (g e).settle f' g' := by
  induction p with
  | ret a => rfl
  | throw e => rfl
  | act i guard step next ih =>
    show act i guard step _ = act i guard step _
    congr 1
    funext s
    exact ih s

end Prog

/-- A condition on the acts with a label. -/
def Meets (C : ι → σ → Prop) : Option ι → σ → Prop
  | none, _ => True
  | some i, s => C i s

/-- A section that alone waits for nothing, and whose acts meet the condition `C`. -/
def Clear (C : ι → σ → Prop) : Prog σ ι ε α → σ → Prop
  | .ret _, _ => True
  | .throw _, _ => True
  | .act i guard step next, s => guard s ∧ Meets C i s ∧ Clear C (next s) (step s)

variable {R : σ → σ → Prop} {C : ι → σ → Prop}

/-- A program that waits for nothing goes on with one that waits for nothing. -/
theorem Clear.settle {p : Prog σ ι ε α} {f : α → Prog σ ι δ β} {g : ε → Prog σ ι δ β} {s : σ}
    (hp : Clear C p s) (hf : ∀ a, (p.run s).1 = .ok a → Clear C (f a) (p.run s).2)
    (hg : ∀ e, (p.run s).1 = .error e → Clear C (g e) (p.run s).2) : Clear C (p.settle f g) s := by
  induction p generalizing s with
  | ret a => exact hf a rfl
  | throw e => exact hg e rfl
  | act i guard step next ih =>
    obtain ⟨hguard, hmeets, hnext⟩ := hp
    exact ⟨hguard, hmeets, ih s hnext hf hg⟩

/-! ## The logic -/

/-- What the steps of the other threads keep. -/
def Stable (R : σ → σ → Prop) (P : σ → Prop) : Prop := ∀ ⦃s s'⦄, R s s' → P s → P s'

/-- What each step of the others keeps is kept by any number of them. -/
theorem Stable.run {P : σ → Prop} (hP : Stable R P) {s s' : σ} (hs : Relation.ReflTransGen R s s')
    (h : P s) : P s' := by
  induction hs with
  | refl => exact h
  | tail _ hstep ih => exact hP hstep ih

/-- However the other threads step in between, the section ends in `Q` or, with an error, in `X`. -/
def Safe (R : σ → σ → Prop) (C : ι → σ → Prop) (Q : α → σ → Prop) (X : ε → σ → Prop) :
    Prog σ ι ε α → σ → Prop
  | .ret a, s => Q a s
  | .throw e, s => X e s
  | .act i guard step next, s => ∀ s', Relation.ReflTransGen R s s' → guard s' → Meets C i s' →
      Safe R C Q X (next s') (step s')

/-- A safe program goes on with a safe one. -/
theorem Safe.settle {Q : α → σ → Prop} {X : ε → σ → Prop} {Q' : β → σ → Prop} {X' : δ → σ → Prop}
    {p : Prog σ ι ε α} {f : α → Prog σ ι δ β} {g : ε → Prog σ ι δ β} {s : σ} (hp : Safe R C Q X p s)
    (hf : ∀ a s, Q a s → Safe R C Q' X' (f a) s) (hg : ∀ e s, X e s → Safe R C Q' X' (g e) s) :
    Safe R C Q' X' (p.settle f g) s := by
  induction p generalizing s with
  | ret a => exact hf a s hp
  | throw e => exact hg e s hp
  | act i guard step next ih =>
    exact fun s' hs hguard hmeets => ih s' (hp s' hs hguard hmeets)

/-- A section that is safe stays so when another thread takes a step. -/
theorem Safe.step {Q : α → σ → Prop} {X : ε → σ → Prop} (hQ : ∀ a, Stable R (Q a))
    (hX : ∀ e, Stable R (X e)) {p : Prog σ ι ε α} {s s' : σ} (hp : Safe R C Q X p s)
    (hs : R s s') : Safe R C Q X p s' := by
  cases p with
  | ret a => exact hQ a hs hp
  | throw e => exact hX e hs hp
  | act i guard step next =>
    exact fun s₁ hrun hguard hmeets => hp s₁ (hrun.head hs) hguard hmeets

/-- Weaker postconditions. -/
theorem Safe.mono {Q Q' : α → σ → Prop} {X X' : ε → σ → Prop} (hQ : ∀ a s, Q a s → Q' a s)
    (hX : ∀ e s, X e s → X' e s) {p : Prog σ ι ε α} {s : σ} (hp : Safe R C Q X p s) :
    Safe R C Q' X' p s := by
  induction p generalizing s with
  | ret a => exact hQ a s hp
  | throw e => exact hX e s hp
  | act i guard step next ih =>
    exact fun s' hs hguard hmeets => ih s' (hp s' hs hguard hmeets)

/-- From a state in `P`, the section ends in `Q` or, with an error, in `X`. -/
def Triple (R : σ → σ → Prop) (C : ι → σ → Prop) (P : σ → Prop) (p : Prog σ ι ε α)
    (Q : α → σ → Prop) (X : ε → σ → Prop) : Prop := ∀ s, P s → Safe R C Q X p s

namespace Triple

variable {P P' : σ → Prop} {Q : α → σ → Prop} {X : ε → σ → Prop} {Q' : β → σ → Prop}
  {X' : δ → σ → Prop}

/-- A stronger precondition. -/
theorem pre {p : Prog σ ι ε α} (h : Triple R C P p Q X) (hP : ∀ s, P' s → P s) :
    Triple R C P' p Q X := fun s hs => h s (hP s hs)

/-- Weaker postconditions. -/
theorem post {Q' : α → σ → Prop} {X' : ε → σ → Prop} {p : Prog σ ι ε α} (h : Triple R C P p Q X)
    (hQ : ∀ a s, Q a s → Q' a s) (hX : ∀ e s, X e s → X' e s) : Triple R C P p Q' X' :=
  fun s hs => (h s hs).mono hQ hX

/-- A value meets the postcondition at once. -/
theorem ret {a : α} (h : ∀ s, P s → Q a s) : Triple R C P (.ret a) Q X := h

/-- An error meets the postcondition at once. -/
theorem throw {e : ε} (h : ∀ s, P s → X e s) : Triple R C P (.throw e) Q X := h

/-- An act, from what the other threads keep. -/
theorem act (hP : Stable R P) {i : Option ι} {guard : σ → Prop} {step : σ → σ}
    {next : σ → Prog σ ι ε α}
    (h : ∀ s, P s → guard s → Meets C i s → Safe R C Q X (next s) (step s)) :
    Triple R C P (.act i guard step next) Q X :=
  fun _ hs s' hrun hguard hmeets => h s' (hP.run hrun hs) hguard hmeets

/-- An act without a result. -/
theorem change (hP : Stable R P) {i : Option ι} {guard : σ → Prop} {step : σ → σ}
    {Q : Unit → σ → Prop} (h : ∀ s, P s → guard s → Meets C i s → Q () (step s)) :
    Triple R C P (.change i guard step) Q X := act hP h

/-- A program and what takes its result, or its error. -/
theorem settle {p : Prog σ ι ε α} {f : α → Prog σ ι δ β} {g : ε → Prog σ ι δ β}
    (hp : Triple R C P p Q X) (hf : ∀ a, Triple R C (Q a) (f a) Q' X')
    (hg : ∀ e, Triple R C (X e) (g e) Q' X') : Triple R C P (p.settle f g) Q' X' :=
  fun s hs => (hp s hs).settle hf hg

/-- One program after another. -/
theorem bind {X : ε → σ → Prop} {p : Prog σ ι ε α} {f : α → Prog σ ι ε β}
    (hp : Triple R C P p Q X) (hf : ∀ a, Triple R C (Q a) (f a) Q' X) :
    Triple R C P (p >>= f) Q' X := hp.settle hf fun _ => throw fun _ h => h

/-- A program whose errors are followed by a clean-up. -/
theorem onError {p : Prog σ ι ε α} {q : Prog σ ι ε Unit} {Y : ε → σ → Prop}
    (hp : Triple R C P p Q Y)
    (hq : ∀ e, Triple R C (Y e) q (fun _ => X e) fun _ => X e)
    (hX : ∀ e e' s, X e s → X e' s) : Triple R C P (p.onError q) Q X :=
  hp.settle (fun _ => ret fun _ h => h) fun e =>
    (hq e).settle (fun _ => throw fun _ h => h) fun e' => throw fun s h => hX e e' s h

/-- What a test guards, and what holds without it. -/
theorem when {Q : Unit → σ → Prop} {b : Bool} {p : Prog σ ι ε Unit}
    (ht : b = true → Triple R C P p Q X) (hf : b = false → ∀ s, P s → Q () s) :
    Triple R C P (.when b p) Q X := by
  cases b with
  | true => exact ht rfl
  | false => exact ret (hf rfl)

/-- A loop keeps what its body keeps. -/
theorem each {l : List β} {f : β → Prog σ ι ε Unit}
    (h : ∀ b ∈ l, Triple R C P (f b) (fun _ => P) X) :
    Triple R C P (.each l f) (fun _ => P) X := by
  induction l with
  | nil => exact ret fun _ h => h
  | cons b l ih =>
    exact (h b List.mem_cons_self).bind fun _ =>
      ih fun b' hb' => h b' (List.mem_cons_of_mem b hb')

end Triple

/-! ## The system -/

/-- The shared state, and what is left of the section of the thread that holds the lock. -/
structure Monitor (σ ι ε α : Type) where
  state : σ
  holder : Option (Prog σ ι ε α)

/-- A step of the system: another thread steps, or a section of those that wait takes the lock, or the
holder acts, or it leaves the lock. The acts meet the condition `C`. -/
inductive Step (R : σ → σ → Prop) (waits : σ → Prog σ ι ε α → Prop) (C : ι → σ → Prop) :
    Monitor σ ι ε α → Monitor σ ι ε α → Prop
  | other {s s' : σ} (h : R s s') (p : Option (Prog σ ι ε α)) : Step R waits C ⟨s, p⟩ ⟨s', p⟩
  | take {s : σ} {p : Prog σ ι ε α} (h : waits s p) : Step R waits C ⟨s, none⟩ ⟨s, some p⟩
  | act {s : σ} {i : Option ι} {guard : σ → Prop} {step : σ → σ} {next : σ → Prog σ ι ε α}
      (hguard : guard s) (hmeets : Meets C i s) :
      Step R waits C ⟨s, some (.act i guard step next)⟩ ⟨step s, some (next s)⟩
  | leave (s : σ) (a : α) : Step R waits C ⟨s, some (.ret a)⟩ ⟨s, none⟩
  | fail (s : σ) (e : ε) : Step R waits C ⟨s, some (.throw e)⟩ ⟨s, none⟩

variable {waits : σ → Prog σ ι ε α → Prop}

/-- The invariant `I` holds, or the holder of the lock restores it. -/
def Held (R : σ → σ → Prop) (C : ι → σ → Prop) (I : σ → Prop) (m : Monitor σ ι ε α) : Prop :=
  match m.holder with
  | none => I m.state
  | some p => Safe R C (fun _ => I) (fun _ => I) p m.state

section

variable {I : σ → Prop}

/-- A step of any thread keeps the invariant, or leaves it to the holder of the lock. -/
theorem Held.step (hI : Stable R I)
    (hwaits : ∀ s p, waits s p → I s → Safe R C (fun _ => I) (fun _ => I) p s)
    {m m' : Monitor σ ι ε α} (h : Held R C I m) (hs : Step R waits C m m') : Held R C I m' := by
  cases hs with
  | other hR p =>
    cases p with
    | none => exact hI hR h
    | some p => exact Safe.step (fun _ => hI) (fun _ => hI) h hR
  | take hw => exact hwaits _ _ hw h
  | act hguard hmeets => exact h _ .refl hguard hmeets
  | leave => exact h
  | fail => exact h

/-- In every run, the invariant holds whenever the lock is free. -/
theorem Held.run (hI : Stable R I)
    (hwaits : ∀ s p, waits s p → I s → Safe R C (fun _ => I) (fun _ => I) p s)
    {m m' : Monitor σ ι ε α} (h : Held R C I m) (hs : Relation.ReflTransGen (Step R waits C) m m') :
    Held R C I m' := by
  induction hs with
  | refl => exact h
  | tail _ hstep ih => exact ih.step hI hwaits hstep

end

/-! ## Runs of one section -/

/-- The holder of the lock gets through the first part of its section. -/
theorem Step.settle {p : Prog σ ι δ β} {f : β → Prog σ ι ε α} {g : δ → Prog σ ι ε α} {s : σ}
    (hp : Clear C p s) : Relation.ReflTransGen (Step R waits C) ⟨s, some (p.settle f g)⟩
      ⟨(p.run s).2, some (match (p.run s).1 with
        | .ok b => f b
        | .error e => g e)⟩ := by
  induction p generalizing s with
  | ret b => exact .refl
  | throw e => exact .refl
  | act i guard step next ih =>
    obtain ⟨hguard, hmeets, hnext⟩ := hp
    exact (ih s hnext).head (.act hguard hmeets)

/-- The holder of the lock gets through the first of two routines. -/
theorem Step.bind {p : Prog σ ι δ β} {q : β → Prog σ ι δ γ} {f : γ → Prog σ ι ε α}
    {g : δ → Prog σ ι ε α} {s s' : σ} {b : β} (hp : Clear C p s) (hrun : p.run s = (.ok b, s')) :
    Relation.ReflTransGen (Step R waits C) ⟨s, some ((p >>= q).settle f g)⟩
      ⟨s', some ((q b).settle f g)⟩ := by
  have hassoc : (p >>= q).settle f g = p.settle (fun b => (q b).settle f g) g :=
    Prog.settle_assoc p q .throw f g
  have hsteps : Relation.ReflTransGen (Step R waits C) ⟨s, some (p.settle (fun b => (q b).settle f g) g)⟩ _ :=
    Step.settle hp
  rw [hassoc]
  rwa [hrun] at hsteps

/-- The holder of the lock gets through its section, and leaves the lock. -/
theorem Step.through {p : Prog σ ι ε α} {s : σ} (hp : Clear C p s) :
    Relation.ReflTransGen (Step R waits C) ⟨s, some p⟩ ⟨(p.run s).2, none⟩ := by
  induction p generalizing s with
  | ret a => exact .single (.leave s a)
  | throw e => exact .single (.fail s e)
  | act i guard step next ih =>
    obtain ⟨hguard, hmeets, hnext⟩ := hp
    exact (ih s hnext).head (.act hguard hmeets)

end Section
