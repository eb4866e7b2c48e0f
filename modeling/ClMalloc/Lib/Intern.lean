import Mathlib.Data.List.AList

/-!
# Interning

A table gives each item the index of its first appearance: interning a known item changes
nothing and interning a new one appends it. A table only grows, so the indices handed out
stay valid, and no item is in it twice. A map indexes a table when it sends each item of the
table to its index, counted from a base.
-/

namespace Intern

variable {α : Type*} [DecidableEq α]

/-- Append an item unless it is in the table. -/
def intern (table : List α) (a : α) : List α := if a ∈ table then table else table ++ [a]

/-- Intern items in order. -/
def internAll (table items : List α) : List α := items.foldl intern table

/-- The map sends each item to its index in the table, counted from the base. -/
structure Indexes (base : ℕ) (map : AList fun _ : α => ℕ) (table : List α) : Prop where
  lookup : ∀ a, map.lookup a = if a ∈ table then some (table.idxOf a + base) else none
  length : map.entries.length = table.length

variable {table table' items : List α} {a b : α}

/-- Nothing is interned. -/
@[simp] theorem internAll_nil : internAll table [] = table := rfl

/-- The first item is interned before the others. -/
@[simp] theorem internAll_cons :
    internAll table (a :: items) = internAll (intern table a) items := rfl

/-- Items are interned one part after the other. -/
theorem internAll_append (left right : List α) :
    internAll table (left ++ right) = internAll (internAll table left) right := List.foldl_append

/-- A known item changes nothing. -/
theorem intern_of_mem (h : a ∈ table) : intern table a = table := if_pos h

/-- A new item is appended. -/
theorem intern_of_notMem (h : a ∉ table) : intern table a = table ++ [a] := if_neg h

/-- Interning adds the item. -/
theorem mem_intern : b ∈ intern table a ↔ b ∈ table ∨ b = a := by
  unfold intern
  split
  · rename_i h
    constructor
    · exact Or.inl
    · rintro (hb | rfl)
      · exact hb
      · exact h
  · simp

/-- Interning items adds them. -/
theorem mem_internAll : b ∈ internAll table items ↔ b ∈ table ∨ b ∈ items := by
  induction items generalizing table with
  | nil => simp
  | cons a items ih => rw [internAll_cons, ih, mem_intern, List.mem_cons, or_assoc]

/-- A table grows at its end. -/
theorem prefix_intern (table : List α) (a : α) : table <+: intern table a := by
  unfold intern
  split
  · exact List.prefix_rfl
  · exact List.prefix_append _ _

/-- A table grows at its end when items are interned. -/
theorem prefix_internAll (table items : List α) : table <+: internAll table items := by
  induction items generalizing table with
  | nil => exact List.prefix_rfl
  | cons a items ih => exact (prefix_intern table a).trans (ih _)

/-- No item is in the table twice. -/
theorem nodup_intern (h : table.Nodup) (a : α) : (intern table a).Nodup := by
  unfold intern
  split
  · exact h
  · rename_i hnew
    exact h.append (List.nodup_singleton a) (by simpa using hnew)

/-- No item is in the table twice when items are interned. -/
theorem nodup_internAll (h : table.Nodup) (items : List α) : (internAll table items).Nodup := by
  induction items generalizing table with
  | nil => exact h
  | cons a items ih => exact ih (nodup_intern h a)

/-- The index of an item stays as the table grows. -/
theorem idxOf_of_prefix (h : table <+: table') (ha : a ∈ table) :
    table'.idxOf a = table.idxOf a := by
  obtain ⟨rest, rfl⟩ := h
  exact List.idxOf_append_of_mem ha

/-- The empty map indexes the empty table. -/
theorem Indexes.empty (base : ℕ) : Indexes base (∅ : AList fun _ : α => ℕ) [] := ⟨by simp, rfl⟩

variable {base : ℕ} {map : AList fun _ : α => ℕ}

/-- A known item is found at its index. -/
theorem Indexes.lookup_of_mem (h : Indexes base map table) (ha : a ∈ table) :
    map.lookup a = some (table.idxOf a + base) := by
  rw [h.lookup, if_pos ha]

/-- A new item is not found. -/
theorem Indexes.lookup_of_notMem (h : Indexes base map table) (ha : a ∉ table) :
    map.lookup a = none := by
  rw [h.lookup, if_neg ha]

/-- The keys of the map are the items of the table. -/
theorem Indexes.mem_iff (h : Indexes base map table) : a ∈ map ↔ a ∈ table := by
  rw [← AList.lookup_isSome, h.lookup]
  split <;> simp [*]

/-- A new item is given the next index. -/
theorem Indexes.insert (h : Indexes base map table) (ha : a ∉ table) :
    Indexes base (map.insert a (table.length + base)) (table ++ [a]) := by
  constructor
  · intro b
    by_cases hb : b = a
    · subst hb
      rw [AList.lookup_insert, if_pos (by simp), List.idxOf_append_of_notMem ha]
      simp
    · rw [AList.lookup_insert_ne hb, h.lookup]
      by_cases hmem : b ∈ table
      · rw [if_pos hmem, if_pos (List.mem_append_left _ hmem), List.idxOf_append_of_mem hmem]
      · rw [if_neg hmem, if_neg (by simp [hmem, hb])]
  · have hnew : a ∉ map := fun hmem => ha (h.mem_iff.mp hmem)
    rw [AList.entries_insert_of_notMem hnew]
    simp [h.length]

end Intern
