import Mathlib.Algebra.Group.Fin.Basic
import Mathlib.Data.List.GetD
import Mathlib.Data.List.Nodup
import Mathlib.Logic.Function.Basic
import Mathlib.Tactic.Abel

/-!
# A table that keeps the newest entries

A table of `n` slots that is filled from slot to slot and starts over when it is full. What has been put
into it is a list, the newest first, of which the table holds the first `n`: `Holds` relates the two. The
slots that have not been filled hold a blank.
-/

namespace Fifo

section Holds

variable {α : Type*} {n : ℕ} [NeZero n] {slots : Fin n → α} {next : Fin n} {blank x : α} {l : List α}

/-- The slots hold the newest entries of `l`, backwards from the slot that is filled next. -/
def Holds (slots : Fin n → α) (next : Fin n) (blank : α) (l : List α) : Prop :=
  ∀ j : Fin n, slots (next - 1 - j) = l.getD j blank

/-- An empty table. -/
theorem Holds.nil (next : Fin n) (blank : α) : Holds (fun _ => blank) next blank [] := fun _ => rfl

/-- The next slot takes the place of the oldest entry. -/
theorem Holds.push (h : Holds slots next blank l) (x : α) :
    Holds (Function.update slots next x) (next + 1) blank (x :: l) := fun j => by
  have hback : next + 1 - 1 - j = next - j := by abel
  rw [hback]
  by_cases hj : j = 0
  · subst hj
    rw [sub_zero, Function.update_self]
    rfl
  · have hslot : next - j ≠ next := fun he => hj (by simpa using he)
    have hsame : next - j = next - 1 - (j - 1) := by abel
    have hval : (j : ℕ) = (j - 1 : Fin n) + 1 := by
      have hpos : 0 < (j : ℕ) := Fin.pos_iff_ne_zero.mpr hj
      rw [Fin.val_sub_one_of_ne_zero hj]
      omega
    rw [Function.update_of_ne hslot, hsame, h, hval, List.getD_cons_succ]

/-- What is in a slot is an entry, in the place that the slot's distance says. -/
theorem Holds.slot_eq (h : Holds slots next blank l) {i : Fin n} (hi : slots i ≠ blank) :
    ∃ k : Fin (l.take n).length, slots i = (l.take n).get k ∧ (k : ℕ) = (next - 1 - i : Fin n) := by
  have hback : i = next - 1 - (next - 1 - i) := by abel
  have hslot : slots i = l.getD (next - 1 - i : Fin n) blank := by
    rw [← h]
    exact congrArg slots hback
  have hlt : ((next - 1 - i : Fin n) : ℕ) < l.length := by
    by_contra hge
    exact hi (hslot.trans (List.getD_eq_default l blank (by omega)))
  refine ⟨⟨(next - 1 - i : Fin n), by rw [List.length_take]; omega⟩, ?_, rfl⟩
  rw [hslot, List.getD_eq_getElem l blank hlt]
  simp

/-- The entries in the slots are the newest. -/
theorem Holds.exists_slot_iff (h : Holds slots next blank l) (hx : x ≠ blank) :
    (∃ i, slots i = x) ↔ x ∈ l.take n := by
  constructor
  · rintro ⟨i, rfl⟩
    obtain ⟨k, hk, -⟩ := h.slot_eq hx
    rw [hk]
    exact List.get_mem _ k
  · intro hmem
    obtain ⟨j, hj, rfl⟩ := List.mem_take_iff_getElem.mp hmem
    have hlt : j < l.length := by omega
    refine ⟨next - 1 - ⟨j, by omega⟩, ?_⟩
    rw [h]
    exact List.getD_eq_getElem l blank hlt

/-- Newest entries that are pairwise different are in slots that are pairwise different. -/
theorem Holds.injective (h : Holds slots next blank l) (hl : (l.take n).Nodup) {i j : Fin n}
    (hi : slots i ≠ blank) (hij : slots i = slots j) : i = j := by
  obtain ⟨k, hk, hki⟩ := h.slot_eq hi
  obtain ⟨m, hm, hmj⟩ := h.slot_eq (fun he => hi (hij.trans he))
  have hkm : k = m := List.nodup_iff_injective_get.mp hl (by rw [← hk, ← hm, hij])
  have hval : next - 1 - i = next - 1 - j := Fin.val_injective (by rw [← hki, ← hmj, hkm])
  exact sub_right_injective hval

end Holds

/-! ## Entries among other events -/

section Log

variable {β κ : Type*} {p : β → Bool} {f : β → κ} {n : ℕ} {x : κ}

/-- An entry is among the newest `n` when it was made and fewer than `n` have been made since. -/
theorem mem_take_filter_iff (log : List β) :
    x ∈ ((log.filter p).map f).take n ↔
      ∃ newer b older, log = newer ++ b :: older ∧ p b = true ∧ f b = x ∧ newer.countP p < n := by
  constructor
  · intro hmem
    -- The induction is on the log, newest entry first. An entry that is not kept takes no room.
    induction log generalizing n with
    | nil => simp at hmem
    | cons b log ih =>
      cases hb : p b with
      | false =>
        rw [List.filter_cons_of_neg (by simp [hb])] at hmem
        obtain ⟨newer, c, older, rfl, hc, hx, hn⟩ := ih hmem
        exact ⟨b :: newer, c, older, rfl, hc, hx, by simpa [hb] using hn⟩
      | true =>
        cases n with
        | zero => simp at hmem
        | succ n =>
          rw [List.filter_cons_of_pos hb, List.map_cons, List.take_succ_cons, List.mem_cons] at hmem
          obtain rfl | hrest := hmem
          · exact ⟨[], b, log, rfl, hb, rfl, by simp⟩
          · obtain ⟨newer, c, older, rfl, hc, hx, hn⟩ := ih hrest
            exact ⟨b :: newer, c, older, rfl, hc, hx, by simpa [hb] using hn⟩
  -- The kept entries that are newer fill fewer than `n` places, so the entry has one of them.
  · rintro ⟨newer, b, older, rfl, hb, rfl, hn⟩
    rw [List.filter_append, List.map_append, List.filter_cons_of_pos hb, List.map_cons]
    have hlen : ((newer.filter p).map f).length < n := by
      rwa [List.length_map, ← List.countP_eq_length_filter]
    obtain ⟨m, hm⟩ : ∃ m, n - ((newer.filter p).map f).length = m + 1 := ⟨_, (Nat.succ_pred (by omega)).symm⟩
    rw [List.take_append, hm, List.take_succ_cons]
    exact List.mem_append_right _ List.mem_cons_self

end Log

end Fifo
