import Mathlib.Data.List.Nodup
import Mathlib.Data.List.Count
import Mathlib.Logic.Function.Basic

/-!
# Counting after a pointwise change

A counter kept beside a list counts the entries a predicate selects. When the predicate
changes at one entry of a duplicate-free list the count moves by one; when it changes
only outside the list the count stays.
-/

namespace Intrusive

variable {α : Type*} {l : List α} {x : α} {f g : α → Bool}

/-- Selecting one more entry of a duplicate-free list raises the count by one. -/
theorem countP_eq_succ_of_flip (hnodup : l.Nodup) (hx : x ∈ l) (hf : f x = false) (hg : g x = true)
    (hrest : ∀ y ∈ l, y ≠ x → g y = f y) : l.countP g = l.countP f + 1 := by
  induction l with
  | nil => simp at hx
  | cons a rest ih =>
    obtain ⟨ha, hrestNodup⟩ := List.nodup_cons.mp hnodup
    rcases List.mem_cons.mp hx with rfl | hmem
    · have heq : rest.countP g = rest.countP f := by
        refine List.countP_congr fun y hy => ?_
        rw [hrest y (List.mem_cons_of_mem _ hy) fun h => ha (h ▸ hy)]
      simp [hf, hg, heq]
    · have hne : a ≠ x := fun h => ha (h ▸ hmem)
      have htail := ih hrestNodup hmem fun y hy => hrest y (List.mem_cons_of_mem _ hy)
      rw [List.countP_cons, List.countP_cons, htail, hrest a List.mem_cons_self hne]
      omega

/-- A predicate changed only outside the list selects as many entries. -/
theorem countP_eq_of_agree (h : ∀ y ∈ l, g y = f y) : l.countP g = l.countP f :=
  List.countP_congr fun y hy => by rw [h y hy]

end Intrusive
