import Mathlib.Data.List.AList
import Mathlib.Algebra.BigOperators.Group.List.Basic
import Mathlib.Algebra.Ring.Nat

/-!
# Sums over the entries of a map

A weight given to each entry of a map has a sum over the map. Inserting a new key adds the
weight of its entry and erasing a key takes the weight of its entry away. What a map holds
after either is the entry that was inserted or one it held before under another key.
-/

namespace MapSum

variable {α : Type*} {β : α → Type*} [DecidableEq α]

/-- The sum of a weight over the entries. -/
def sumOn (f : Sigma β → ℕ) (s : AList β) : ℕ := (s.entries.map f).sum

variable {f g : Sigma β → ℕ} {s : AList β} {a : α} {b : β a}

omit [DecidableEq α] in
/-- The empty map has nothing to sum. -/
@[simp] theorem sumOn_empty : sumOn f (∅ : AList β) = 0 := rfl

omit [DecidableEq α] in
/-- Weights that agree on the entries have the same sum. -/
theorem sumOn_congr (h : ∀ e ∈ s.entries, f e = g e) : sumOn f s = sumOn g s := by
  unfold sumOn
  rw [List.map_congr_left h]

omit [DecidableEq α] in
/-- A weight that is zero on every entry sums to zero. -/
theorem sumOn_eq_zero (h : ∀ e ∈ s.entries, f e = 0) : sumOn f s = 0 := by
  unfold sumOn
  exact List.sum_eq_zero fun n hn => by
    obtain ⟨e, he, rfl⟩ := List.mem_map.mp hn
    exact h e he

/-- A new key adds the weight of its entry. -/
theorem sumOn_insert (h : a ∉ s) : sumOn f (s.insert a b) = f ⟨a, b⟩ + sumOn f s := by
  unfold sumOn
  rw [AList.entries_insert_of_notMem h, List.map_cons, List.sum_cons]

/-- Erasing a key takes the weight of its entry away. -/
theorem sumOn_erase (h : s.lookup a = some b) : sumOn f (s.erase a) + f ⟨a, b⟩ = sumOn f s := by
  have hmem : a ∈ s.entries.keys := AList.lookup_isSome.mp (by rw [h]; rfl)
  obtain ⟨b', left, right, hleft, heq, herase⟩ := List.exists_of_kerase hmem
  have hb : b' = b := by
    have hlookup : s.entries.dlookup a = some b := h
    rw [heq, List.dlookup_append, List.dlookup_eq_none.mpr hleft] at hlookup
    simpa using hlookup
  subst hb
  have hentries : (s.erase a).entries = left ++ right := herase
  unfold sumOn
  rw [hentries, heq]
  simp only [List.map_append, List.map_cons, List.sum_append, List.sum_cons]
  omega

section Lookup

variable {γ : Type*} {m : AList fun _ : α => γ} {k : α} {c d : γ}

/-- What is found after an insertion was inserted or was there before under another key. -/
theorem lookup_insert_cases (h : (m.insert a c).lookup k = some d) :
    (k = a ∧ d = c) ∨ (k ≠ a ∧ m.lookup k = some d) := by
  by_cases hk : k = a
  · subst hk
    rw [AList.lookup_insert] at h
    exact Or.inl ⟨rfl, (Option.some.inj h).symm⟩
  · rw [AList.lookup_insert_ne hk] at h
    exact Or.inr ⟨hk, h⟩

/-- What is found after a key was erased was there before under another key. -/
theorem lookup_erase_cases (h : (m.erase a).lookup k = some d) : k ≠ a ∧ m.lookup k = some d := by
  have hk : k ≠ a := by
    rintro rfl
    rw [AList.lookup_erase] at h
    cases h
  rw [AList.lookup_erase_ne hk] at h
  exact ⟨hk, h⟩

end Lookup

end MapSum
