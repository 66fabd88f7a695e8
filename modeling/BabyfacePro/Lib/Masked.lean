import Mathlib.Data.List.Basic
import Mathlib.Tactic.Common

/-!
# A register that is written under masks

A write carries a value and a mask, and sets the bits of the mask to those of the value. Several writers
share such a register when each of them writes its own field of it. `Carries f v ws` says that the writes
`ws` set no bit of the field `f` to another value than that of `v`: they keep a field that holds `v`, as
many of them as get through, and bring it to `v` where their masks cover it (`Carries.field_run`).
-/

namespace Masked

variable {n : ℕ}

/-- A write of the bits of `val` in `mask`. -/
structure Write (n : ℕ) where
  mask : BitVec n
  val : BitVec n

/-- The register after a write. -/
def write (x : BitVec n) (w : Write n) : BitVec n := x &&& ~~~w.mask ||| w.val &&& w.mask

/-- The register after writes, oldest first. -/
def run (x : BitVec n) (ws : List (Write n)) : BitVec n := ws.foldl write x

/-- The bits that some write sets. -/
def cover : List (Write n) → BitVec n
  | [] => 0
  | w :: ws => w.mask ||| cover ws

/-- On the field `f`, the writes carry the bits of `v`. -/
def Carries (f v : BitVec n) (ws : List (Write n)) : Prop :=
  ∀ w ∈ ws, w.val &&& (w.mask &&& f) = v &&& (w.mask &&& f)

variable {f v x : BitVec n} {w : Write n} {ws vs : List (Write n)}

/-- Writes, and others after them. -/
theorem run_append (x : BitVec n) (ws vs : List (Write n)) : run x (ws ++ vs) = run (run x ws) vs :=
  List.foldl_append

/-- A write under a mask without bits of the field. -/
theorem carries_of_disjoint (h : w.mask &&& f = 0) (v : BitVec n) :
    w.val &&& (w.mask &&& f) = v &&& (w.mask &&& f) := by
  rw [h]
  exact BitVec.and_zero.trans BitVec.and_zero.symm

/-- What one write leaves in a field. -/
theorem field_write (h : w.val &&& (w.mask &&& f) = v &&& (w.mask &&& f)) (x : BitVec n) :
    write x w &&& f = x &&& (f &&& ~~~w.mask) ||| v &&& (f &&& w.mask) := by
  have hbits : ∀ a m b c g : Bool, (b && (m && g)) = (c && (m && g)) →
      ((a && !m || b && m) && g) = (a && (g && !m) || c && (g && m)) := by decide
  ext i hi
  have hbit := congrArg (fun u : BitVec n => u[i]) h
  simp only [BitVec.getElem_and] at hbit
  simp only [write, BitVec.getElem_and, BitVec.getElem_or, BitVec.getElem_not]
  exact hbits _ _ _ _ _ hbit

/-- The writes decide where they cover the field, and leave the rest of it as it was. -/
theorem Carries.field_run (h : Carries f v ws) (x : BitVec n) :
    run x ws &&& f = x &&& (f &&& ~~~cover ws) ||| v &&& (f &&& cover ws) := by
  -- Both facts are about one bit of the word, the field and the masks.
  have hbits : ∀ a c g m k : Bool, ((a && (g && !m) || c && (g && m)) && (g && !k) || c && (g && k)) =
      (a && (g && !(m || k)) || c && (g && (m || k))) := by decide
  have hsub : ∀ a g k : Bool, (a && (g && !k)) = (a && g && (g && !k)) := by decide
  -- The induction is on the writes, over the word that each of them leaves.
  induction ws generalizing x with
  | nil =>
    ext i hi
    simp [run, cover]
  | cons w ws ih =>
    have hrest := ih (fun u hu => h u (List.mem_cons_of_mem w hu)) (write x w)
    have hfirst := field_write (h w List.mem_cons_self) x
    show run (write x w) ws &&& f = _
    rw [hrest]
    ext i hi
    have hbit := congrArg (fun u : BitVec n => u[i]) hfirst
    simp only [BitVec.getElem_and, BitVec.getElem_or, BitVec.getElem_not] at hbit
    simp only [cover, BitVec.getElem_and, BitVec.getElem_or, BitVec.getElem_not]
    rw [hsub, hbit]
    exact hbits _ _ _ _ _

/-- A field that holds the value keeps it, however many of the writes get through. -/
theorem Carries.keeps (h : Carries f v ws) (hx : x &&& f = v &&& f) : run x ws &&& f = v &&& f := by
  have hbits : ∀ a c g m : Bool, (a && g) = (c && g) → (a && (g && !m) || c && (g && m)) = (c && g) := by
    decide
  rw [h.field_run]
  ext i hi
  have hbit := congrArg (fun u : BitVec n => u[i]) hx
  simp only [BitVec.getElem_and] at hbit
  simp only [BitVec.getElem_and, BitVec.getElem_or, BitVec.getElem_not]
  exact hbits _ _ _ _ hbit

/-- A field that the masks cover comes to the value, whatever the register held. -/
theorem Carries.reaches (h : Carries f v ws) (hc : f &&& cover ws = f) (x : BitVec n) :
    run x ws &&& f = v &&& f := by
  have hbits : ∀ a c g m : Bool, (g && m) = g → (a && (g && !m) || c && (g && m)) = (c && g) := by decide
  rw [h.field_run]
  ext i hi
  have hbit := congrArg (fun u : BitVec n => u[i]) hc
  simp only [BitVec.getElem_and] at hbit
  simp only [BitVec.getElem_and, BitVec.getElem_or, BitVec.getElem_not]
  exact hbits _ _ _ _ hbit

/-- The mask of a write is covered. -/
theorem cover_of_mem (h : w ∈ ws) (hf : f &&& w.mask = f) : f &&& cover ws = f := by
  have hbits : ∀ g m k : Bool, (g && m) = g → (g && (m || k)) = g ∧ (g && (k || m)) = g := by decide
  induction ws with
  | nil => cases h
  | cons u ws ih =>
    ext i hi
    simp only [cover, BitVec.getElem_and, BitVec.getElem_or]
    rcases List.mem_cons.mp h with rfl | hw
    · have hbit := congrArg (fun u : BitVec n => u[i]) hf
      simp only [BitVec.getElem_and] at hbit
      exact (hbits _ _ _ hbit).1
    · have hbit := congrArg (fun u : BitVec n => u[i]) (ih hw)
      simp only [BitVec.getElem_and] at hbit
      exact (hbits _ _ _ hbit).2

end Masked
