import Mathlib.Algebra.BigOperators.Group.Finset.Basic
import Mathlib.Algebra.Order.BigOperators.Group.Finset

/-!
# Sums over all threads

A quantity kept for each of infinitely many indices, almost all of them zero, has a sum.
When the quantity changes at one index the sum changes by as much.
-/

namespace Tally

variable {ι : Type*} {f g : ι → ℕ} {n : ℕ}

/-- The function is zero outside a finite set, over which it sums to the value. -/
def SumsTo (f : ι → ℕ) (n : ℕ) : Prop :=
  ∃ support : Finset ι, (∀ i ∉ support, f i = 0) ∧ ∑ i ∈ support, f i = n

/-- Zero everywhere sums to zero. -/
theorem sumsTo_zero : SumsTo (fun _ : ι => 0) 0 := ⟨∅, by simp, by simp⟩

/-- A function that is zero everywhere sums to nothing else. -/
theorem SumsTo.eq_zero (h : SumsTo f n) (hzero : ∀ i, f i = 0) : n = 0 := by
  obtain ⟨support, -, rfl⟩ := h
  exact Finset.sum_eq_zero fun i _ => hzero i

/-- A change at one index changes the sum by as much. -/
theorem SumsTo.change [DecidableEq ι] (h : SumsTo f n) (i : ι) (hrest : ∀ j ≠ i, g j = f j) :
    ∃ m, SumsTo g m ∧ m + f i = n + g i := by
  obtain ⟨support, hout, rfl⟩ := h
  refine ⟨_, ⟨insert i support, fun j hj => ?_, rfl⟩, ?_⟩
  · rw [Finset.mem_insert, not_or] at hj
    rw [hrest j hj.1, hout j hj.2]
  · have hsame : ∑ j ∈ support.erase i, g j = ∑ j ∈ support.erase i, f j :=
      Finset.sum_congr rfl fun j hj => hrest j (Finset.ne_of_mem_erase hj)
    have hsum : ∑ j ∈ support, f j = f i + ∑ j ∈ support.erase i, f j := by
      by_cases hi : i ∈ support
      · exact (Finset.add_sum_erase support f hi).symm
      · rw [hout i hi, Finset.erase_eq_of_notMem hi, Nat.zero_add]
    rw [← Finset.insert_erase (Finset.mem_insert_self i support), Finset.erase_insert_eq_erase,
      Finset.sum_insert (Finset.notMem_erase i support), hsame, hsum]
    omega

/-- Where each index has at most one item and no item is at two, the items make a list as long as
their number. -/
theorem SumsTo.exists_list {α : Type*} {item : ι → Option α}
    (h : SumsTo (fun i => (item i).toList.length) n)
    (hone : ∀ i j a, item i = some a → item j = some a → i = j) :
    ∃ items : List α, items.Nodup ∧ items.length = n ∧ ∀ a, a ∈ items ↔ ∃ i, item i = some a := by
  obtain ⟨support, hout, rfl⟩ := h
  refine ⟨support.toList.filterMap item, ?_, ?_, fun a => ?_⟩
  · exact support.nodup_toList.filterMap fun i j a hi hj => hone i j a hi hj
  · rw [List.filterMap_eq_flatMap_toList, List.length_flatMap, Finset.sum_map_toList]
  · rw [List.mem_filterMap]
    constructor
    · rintro ⟨i, -, hi⟩
      exact ⟨i, hi⟩
    · rintro ⟨i, hi⟩
      have hmem : i ∈ support := by
        by_contra hnot
        simpa [hi] using hout i hnot
      exact ⟨i, Finset.mem_toList.mpr hmem, hi⟩

end Tally
