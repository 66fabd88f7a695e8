import Mathlib.Data.List.Basic
import Mathlib.Data.List.Nodup
import Mathlib.Logic.Function.Basic
import Mathlib.Tactic.Common

/-!
# Register files and lists of writes

A device whose content cannot be read back is known through what was written to it. `apply d ws`
is the file `d` after the writes `ws`, `last ws` the partial map of the values last written, and
`Holds d ws` says that `d` holds every value of the image `ws`. The file after a prefix of an image
still holds a second image of the same addresses exactly when the prefix carried the second image's
values and the file already held the rest (`holds_apply_take_iff`).
-/

namespace Registers

variable {A V : Type}

/-- The file holds every value of an image. -/
def Holds (d : A → V) (ws : List (A × V)) : Prop := ∀ w ∈ ws, d w.1 = w.2

/-- Whether the registers hold what was written is a list of comparisons. -/
instance [DecidableEq V] (d : A → V) (ws : List (A × V)) : Decidable (Holds d ws) :=
  inferInstanceAs (Decidable (∀ w ∈ ws, d w.1 = w.2))

/-- Nothing was written. -/
@[simp] theorem holds_nil (d : A → V) : Holds d [] := by simp [Holds]

/-- The first register holds its word, and so do the others. -/
@[simp] theorem holds_cons (d : A → V) (w : A × V) (ws : List (A × V)) :
    Holds d (w :: ws) ↔ d w.1 = w.2 ∧ Holds d ws := by simp [Holds]

/-- Both lists of writes are held. -/
@[simp] theorem holds_append (d : A → V) (ws vs : List (A × V)) :
    Holds d (ws ++ vs) ↔ Holds d ws ∧ Holds d vs := by
  simp [Holds, or_imp, forall_and]

/-! ## Writes elsewhere -/

/-- No write of the list is to a register in `S`. -/
def Avoids (S : A → Prop) (ws : List (A × V)) : Prop := ∀ w ∈ ws, ¬ S w.1

section Avoids

variable {S : A → Prop} {ws vs : List (A × V)}

/-- No write goes anywhere. -/
theorem Avoids.nil : Avoids S ([] : List (A × V)) := fun _ hw => by cases hw

/-- A write that goes elsewhere, before others that do. -/
theorem Avoids.cons {w : A × V} (hw : ¬ S w.1) (h : Avoids S ws) : Avoids S (w :: ws) := by
  intro x hx
  rcases List.mem_cons.mp hx with rfl | hx
  · exact hw
  · exact h x hx

/-- Two lists of writes that go elsewhere. -/
theorem Avoids.append (h : Avoids S ws) (h' : Avoids S vs) : Avoids S (ws ++ vs) := by
  intro x hx
  rcases List.mem_append.mp hx with hx | hx
  · exact h x hx
  · exact h' x hx

/-- The writes of a loop that go elsewhere. -/
theorem Avoids.flatMap {B : Type} {l : List B} {f : B → List (A × V)}
    (h : ∀ b ∈ l, Avoids S (f b)) : Avoids S (l.flatMap f) := by
  intro x hx
  obtain ⟨b, hb, hx⟩ := List.mem_flatMap.mp hx
  exact h b hb x hx

/-- A loop that writes once a turn, and elsewhere. -/
theorem Avoids.map {B : Type} {l : List B} {f : B → A × V} (h : ∀ b ∈ l, ¬ S (f b).1) :
    Avoids S (l.map f) := by
  intro x hx
  obtain ⟨b, hb, rfl⟩ := List.mem_map.mp hx
  exact h b hb

/-- Writes under a condition. -/
theorem Avoids.ite {p : Prop} [Decidable p] (h : p → Avoids S ws) :
    Avoids S (if p then ws else []) := by
  split
  · exact h ‹_›
  · exact Avoids.nil

/-- Fewer registers are avoided too. -/
theorem Avoids.mono {S' : A → Prop} (h : Avoids S ws) (hS : ∀ a, S' a → S a) : Avoids S' ws :=
  fun w hw hs => h w hw (hS _ hs)

end Avoids

variable [DecidableEq A]

/-! ## Writes -/

/-- The register file after a list of writes, oldest first. -/
def apply (d : A → V) (ws : List (A × V)) : A → V :=
  ws.foldl (fun d w => Function.update d w.1 w.2) d

/-- Without a write the registers stay as they are. -/
@[simp] theorem apply_nil (d : A → V) : apply d [] = d := rfl

/-- The first write, then the others. -/
@[simp] theorem apply_cons (d : A → V) (w : A × V) (ws : List (A × V)) :
    apply d (w :: ws) = apply (Function.update d w.1 w.2) ws := rfl

/-- Writes in sequence compose. -/
theorem apply_append (d : A → V) (ws vs : List (A × V)) :
    apply d (ws ++ vs) = apply (apply d ws) vs := List.foldl_append

/-- A register that no write names keeps its value. -/
theorem apply_of_notMem {ws : List (A × V)} {a : A} (h : a ∉ ws.map Prod.fst) (d : A → V) :
    apply d ws a = d a := by
  induction ws generalizing d with
  | nil => rfl
  | cons w ws ih =>
    simp only [List.map_cons, List.mem_cons, not_or] at h
    rw [apply_cons, ih h.2, Function.update_of_ne h.1]

/-- What a list of writes leaves in a register that it names does not depend on the file before. -/
theorem apply_eq_of_mem {ws : List (A × V)} {a : A} (h : a ∈ ws.map Prod.fst) (d d' : A → V) :
    apply d ws a = apply d' ws a := by
  induction ws generalizing d d' with
  | nil => simp at h
  | cons w ws ih =>
    by_cases ha : a ∈ ws.map Prod.fst
    · exact ih ha _ _
    · rw [apply_cons, apply_cons, apply_of_notMem ha, apply_of_notMem ha]
      simp only [List.map_cons, List.mem_cons, ha, or_false] at h
      rw [h, Function.update_self, Function.update_self]

/-- When every write to a named register carries the value `v`, the register ends with `v`. -/
theorem apply_eq_of_forall {ws : List (A × V)} {a : A} {v : V} (h : a ∈ ws.map Prod.fst)
    (hv : ∀ w ∈ ws, w.1 = a → w.2 = v) (d : A → V) : apply d ws a = v := by
  induction ws generalizing d with
  | nil => simp at h
  | cons w ws ih =>
    have hv' := fun x hx => hv x (List.mem_cons_of_mem w hx)
    by_cases ha : a ∈ ws.map Prod.fst
    · exact ih ha hv' _
    · rw [apply_cons, apply_of_notMem ha]
      simp only [List.map_cons, List.mem_cons, ha, or_false] at h
      rw [h, Function.update_self, hv w List.mem_cons_self h.symm]

/-! ## Images -/

/-- An image that names each register once is held after it is written. -/
theorem holds_apply {ws : List (A × V)} (h : (ws.map Prod.fst).Nodup) (d : A → V) :
    Holds (apply d ws) ws := by
  induction ws generalizing d with
  | nil => simp
  | cons w ws ih =>
    obtain ⟨hw, hn⟩ := List.nodup_cons.mp h
    refine (holds_cons _ _ _).mpr ⟨?_, ih hn _⟩
    rw [apply_cons, apply_of_notMem hw, Function.update_self]

/-- After the first `k` writes of the image `ws`, the file holds the image `vs` of the same registers
exactly when those writes carried the values of `vs` and the file already held the rest of `vs`. -/
theorem holds_apply_take_iff {ws vs : List (A × V)} (hk : ws.map Prod.fst = vs.map Prod.fst)
    (hn : (vs.map Prod.fst).Nodup) (k : ℕ) (d : A → V) :
    Holds (apply d (ws.take k)) vs ↔ ws.take k = vs.take k ∧ Holds d (vs.drop k) := by
  induction vs generalizing ws k d with
  | nil =>
    have : ws = [] := by simpa using hk
    simp [this]
  | cons v vs ih =>
    obtain ⟨w, ws, rfl⟩ : ∃ w ws', ws = w :: ws' := by
      cases ws with
      | nil => simp at hk
      | cons w ws' => exact ⟨w, ws', rfl⟩
    simp only [List.map_cons, List.cons.injEq] at hk
    obtain ⟨hv, hn⟩ := List.nodup_cons.mp hn
    cases k with
    | zero => simp
    | succ k =>
      have hw : w.1 ∉ (ws.take k).map Prod.fst := fun h => by
        rw [List.map_take, hk.2, hk.1] at h
        exact hv (List.mem_of_mem_take h)
      rw [List.take_succ_cons, List.take_succ_cons, List.drop_succ_cons, apply_cons, holds_cons,
        ih hk.2 hn, ← hk.1, apply_of_notMem hw, Function.update_self, List.cons.injEq,
        Prod.ext_iff]
      -- The rest of `vs` does not name the register of the first write.
      have hrest : Holds (Function.update d w.1 w.2) (vs.drop k) ↔ Holds d (vs.drop k) := by
        refine forall₂_congr fun x hx => ?_
        have hx' : x.1 ≠ w.1 := fun he => hv <| by
          rw [← hk.1, ← he]; exact List.mem_map_of_mem (List.mem_of_mem_drop hx)
        rw [Function.update_of_ne hx']
      rw [hrest]
      simp [hk.1, and_assoc]

/-! ## The values last written -/

/-- The value last written to each register, if any. -/
def last (ws : List (A × V)) : A → Option V :=
  apply (fun _ => none) (ws.map fun w => (w.1, some w.2))

/-- Nothing was written last. -/
@[simp] theorem last_nil : last ([] : List (A × V)) = fun _ => none := rfl

/-- A register that is named was written. -/
theorem last_isSome {ws : List (A × V)} {a : A} (h : a ∈ ws.map Prod.fst) :
    ∃ v, last ws a = some v := by
  induction ws with
  | nil => simp at h
  | cons w ws ih =>
    have hmap : (ws.map fun w => (w.1, some w.2)).map Prod.fst = ws.map Prod.fst := by
      simp [List.map_map, Function.comp_def]
    by_cases ha : a ∈ ws.map Prod.fst
    · obtain ⟨v, hv⟩ := ih ha
      refine ⟨v, ?_⟩
      rw [← hv]
      exact apply_eq_of_mem (hmap ▸ ha) _ _
    · refine ⟨w.2, ?_⟩
      simp only [List.map_cons, List.mem_cons, ha, or_false] at h
      rw [last, List.map_cons, apply_cons, apply_of_notMem (hmap ▸ ha), h, Function.update_self]

/-- A register that is not named was not written. -/
theorem last_eq_none {ws : List (A × V)} {a : A} (h : a ∉ ws.map Prod.fst) : last ws a = none := by
  unfold last
  rw [apply_of_notMem]
  simpa [List.map_map, Function.comp_def] using h

/-- A register holds what was last written to it, or what it held before. -/
theorem apply_eq_getD (d : A → V) (ws : List (A × V)) (a : A) : apply d ws a = (last ws a).getD (d a) := by
  induction ws generalizing d with
  | nil => rfl
  | cons w ws ih =>
    have hmap : (ws.map fun w => (w.1, some w.2)).map Prod.fst = ws.map Prod.fst := by
      simp [List.map_map, Function.comp_def]
    have hlast : last (w :: ws) a = apply (Function.update (fun _ => none) w.1 (some w.2))
      (ws.map fun w => (w.1, some w.2)) a := rfl
    rw [apply_cons, ih, hlast]
    by_cases ha : a ∈ ws.map Prod.fst
    · obtain ⟨v, hv⟩ := last_isSome ha
      have heq := apply_eq_of_mem (hmap ▸ ha) (Function.update (fun _ => none) w.1 (some w.2))
        fun _ => none
      have hv' : apply (fun _ => none) (ws.map fun w => (w.1, some w.2)) a = some v := hv
      rw [heq, hv', hv, Option.getD_some, Option.getD_some]
    · rw [apply_of_notMem (hmap ▸ ha), last_eq_none ha, Option.getD_none]
      by_cases hw : a = w.1
      · rw [hw, Function.update_self, Function.update_self, Option.getD_some]
      · rw [Function.update_of_ne hw, Function.update_of_ne hw, Option.getD_none]

/-- What was last written by two lists in sequence: the second decides where it names a register. -/
theorem last_append (ws vs : List (A × V)) (a : A) :
    last (ws ++ vs) a = (last vs a).or (last ws a) := by
  have hmap : (vs.map fun w => (w.1, some w.2)).map Prod.fst = vs.map Prod.fst := by
    simp [List.map_map, Function.comp_def]
  by_cases h : a ∈ vs.map Prod.fst
  · obtain ⟨v, hv⟩ := last_isSome h
    rw [hv, Option.some_or, ← hv, last, List.map_append, apply_append]
    exact apply_eq_of_mem (hmap ▸ h) _ _
  · rw [last_eq_none h, Option.none_or, last, List.map_append, apply_append,
      apply_of_notMem (hmap ▸ h)]
    rfl

/-- When every write to a named register carries `v`, that is the value last written. -/
theorem last_eq_some {ws : List (A × V)} {a : A} {v : V} (h : a ∈ ws.map Prod.fst)
    (hv : ∀ w ∈ ws, w.1 = a → w.2 = v) : last ws a = some v := by
  refine apply_eq_of_forall (by simpa [List.map_map, Function.comp_def] using h) ?_ _
  intro w hw ha
  obtain ⟨x, hx, rfl⟩ := List.mem_map.mp hw
  exact congrArg some (hv x hx ha)

/-- An image that names a register once leaves its value there. -/
theorem last_of_mem {ws : List (A × V)} {a : A} {v : V} (hn : (ws.map Prod.fst).Nodup)
    (h : (a, v) ∈ ws) : last ws a = some v := by
  refine last_eq_some (List.mem_map_of_mem h) fun w hw ha => ?_
  have hwv : w = (a, v) := List.inj_on_of_nodup_map hn hw h ha
  rw [hwv]

/-- One write. -/
theorem last_singleton (a b : A) (v : V) : last [(a, v)] b = if b = a then some v else none := by
  unfold last
  rw [List.map_singleton, apply_cons, apply_nil]
  by_cases h : b = a
  · rw [h, Function.update_self, if_pos rfl]
  · rw [Function.update_of_ne h, if_neg h]

/-- A register that is avoided was not written. -/
theorem Avoids.last_eq_none {S : A → Prop} {ws : List (A × V)} (h : Avoids S ws) {a : A} (ha : S a) :
    last ws a = none := by
  refine Registers.last_eq_none fun hm => ?_
  obtain ⟨w, hw, rfl⟩ := List.mem_map.mp hm
  exact h w hw ha

/-- Of several lists, the one that owns a register decides what is last written to it. -/
theorem last_flatMap_of_mem {B : Type} {l : List B} {f : B → List (A × V)} {b : B} (hb : b ∈ l) {a : A}
    (h : ∀ x ∈ l, x ≠ b → Avoids (fun y => y = a) (f x)) : last (l.flatMap f) a = last (f b) a := by
  induction l with
  | nil => cases hb
  | cons x l ih =>
    have hl : ∀ y ∈ l, y ≠ b → Avoids (fun z => z = a) (f y) := fun y hy =>
      h y (List.mem_cons_of_mem _ hy)
    have hx : x ≠ b → last (f x) a = none := fun hne => (h x List.mem_cons_self hne).last_eq_none rfl
    rw [List.flatMap_cons, last_append]
    by_cases hm : b ∈ l
    · rw [ih hm hl]
      by_cases hxb : x = b
      · rw [hxb, Option.or_self]
      · rw [hx hxb, Option.or_none]
    · -- The owner is the head, and the tail is all avoided.
      have hxb : b = x := (List.mem_cons.mp hb).resolve_right hm
      have hrest : last (l.flatMap f) a = none := Avoids.last_eq_none (S := fun z => z = a)
        (.flatMap fun y hy => hl y hy fun he => hm (he ▸ hy)) rfl
      rw [hrest, Option.none_or, hxb]

/-- Lists that leave the same in a register leave the same in sequence. -/
theorem last_flatMap_congr {B : Type} {l : List B} {f g : B → List (A × V)} {a : A}
    (h : ∀ b ∈ l, last (f b) a = last (g b) a) : last (l.flatMap f) a = last (l.flatMap g) a := by
  induction l with
  | nil => rfl
  | cons b l ih =>
    rw [List.flatMap_cons, List.flatMap_cons, last_append, last_append, h b List.mem_cons_self,
      ih fun x hx => h x (List.mem_cons_of_mem _ hx)]

/-! ## Registers that follow a cache -/

section Follows

variable {I : Type} {reg : I → A} {v v' v'' : I → V} {us ws vs : List (A × V)}

/-- The writes `ws` bring the registers `reg i` from the values `v` to `v'`: the last write of each
carries its new value, or it is not written and its value stays. -/
def Follows (reg : I → A) (v v' : I → V) (ws : List (A × V)) : Prop :=
  ∀ i, last ws (reg i) = some (v' i) ∨ last ws (reg i) = none ∧ v' i = v i

/-- Writes elsewhere leave the registers to follow what they held. -/
theorem Follows.of_avoids (h : Avoids (fun a => ∃ i, reg i = a) ws) : Follows reg v v ws := fun i =>
  .inr ⟨h.last_eq_none ⟨i, rfl⟩, rfl⟩

/-- Without a write they follow what they held. -/
theorem Follows.nil : Follows reg v v ([] : List (A × V)) := .of_avoids .nil

/-- Every register is written. -/
theorem Follows.of_last (h : ∀ i, last ws (reg i) = some (v' i)) : Follows reg v v' ws := fun i =>
  .inl (h i)

/-- The words after both lists of writes. -/
theorem Follows.append (h : Follows reg v v' ws) (h' : Follows reg v' v'' vs) :
    Follows reg v v'' (ws ++ vs) := by
  intro i
  rw [last_append]
  obtain hv | ⟨hv, hsame'⟩ := h' i
  · left
    rw [hv, Option.some_or]
  rw [hv, Option.none_or, hsame']
  exact h i

/-- What was last written before, and is now. -/
theorem Follows.last_append (h : Follows reg v v' ws) {i : I} (hu : last us (reg i) = some (v i)) :
    last (us ++ ws) (reg i) = some (v' i) := by
  rw [Registers.last_append]
  obtain hw | ⟨hw, hsame⟩ := h i
  · rw [hw, Option.some_or]
  · rw [hw, Option.none_or, hu, hsame]

/-- A register that holds `d` as long as it is not written. -/
theorem Follows.getD_append (h : Follows reg v v' ws) {i : I} {d : V}
    (hu : (last us (reg i)).getD d = v i) : (last (us ++ ws) (reg i)).getD d = v' i := by
  rw [Registers.last_append]
  obtain hw | ⟨hw, hsame⟩ := h i
  · rw [hw, Option.some_or, Option.getD_some]
  · rw [hw, Option.none_or, hu, hsame]

end Follows

end Registers
