import ClMalloc.Lib.DList

/-!
# Walking a chain by a pointer to the link

A loop that deletes nodes of a singly linked list keeps a cursor at the cell that holds the
current node: the start pointer or the link of the node before. To delete the node it writes
the node's link into that cell and stays; to keep the node it moves on to the node's own
link. The cells written are the start and the links of nodes that were kept.
-/

namespace Intrusive

variable {N : Type*}

/-- A start pointer and the links stored in the nodes. -/
structure Thread (N : Type*) where
  start : Option N
  next : N → Option N

/-- What the cursor points at. -/
def Thread.read (t : Thread N) : Cell N Unit → Option N
  | .head _ => t.start
  | .next n => t.next n

/-- The links from the start meet exactly these nodes. -/
def Thread.Spells (t : Thread N) (nodes : List N) : Prop := Chain t.next t.start nodes

variable {t : Thread N} {n k : N} {cell : Cell N Unit} {before after nodes : List N}

/-- The cell that holds the node behind one more. -/
theorem holder_append (cell : Cell N Unit) (before : List N) (n : N) :
    holder cell (before ++ [n]) = .next n := by
  induction before generalizing cell with
  | nil => rfl
  | cons k before ih => exact ih (.next k)

/-- The holding cell of the nodes behind some is the first cell or the link of one of them. -/
theorem holder_cases (cell : Cell N Unit) (before : List N) :
    (before = [] ∧ holder cell before = cell) ∨ ∃ front n, before = front ++ [n] ∧
      holder cell before = .next n := by
  rcases List.eq_nil_or_concat before with rfl | ⟨front, n, rfl⟩
  · exact .inl ⟨rfl, rfl⟩
  · rw [List.concat_eq_append]
    exact .inr ⟨front, n, rfl, holder_append cell front n⟩

/-- The cell behind some nodes holds the next one. -/
theorem Thread.Spells.read_holder (h : t.Spells (before ++ after)) :
    t.read (holder (.head ()) before) = after.head? := by
  suffices hgen : ∀ cell, Chain t.next (t.read cell) (before ++ after) →
    t.read (holder cell before) = after.head? from
    hgen (.head ()) h
  clear h
  induction before with
  | nil => exact fun cell hchain => hchain.head_eq
  | cons k before ih => exact fun cell hchain => ih (.next k) hchain.2

variable [DecidableEq N]

/-- Write through the cursor. -/
def Thread.write (t : Thread N) : Cell N Unit → Option N → Thread N
  | .head _, value => { t with start := value }
  | .next n, value => { t with next := Function.update t.next n value }

/-- A write behind some nodes leaves the links of all but the last of them. -/
theorem Thread.write_holder_next (t : Thread N) (value : Option N) (hk : k ∉ before) :
    (t.write (holder (.head ()) before) value).next k = t.next k := by
  rcases holder_cases (.head ()) before with ⟨-, hcell⟩ | ⟨front, n, rfl, hcell⟩
  · rw [hcell, write]
  · rw [hcell, write]
    apply Function.update_of_ne
    rintro rfl
    simp at hk

/-- Writing a node's link into the cell that holds the node takes it out of the chain. -/
theorem Thread.Spells.splice (h : t.Spells (before ++ n :: after)) :
    (t.write (holder (.head ()) before) (t.next n)).Spells (before ++ after) := by
  have hnodup : (before ++ n :: after).Nodup := h.nodup
  rcases holder_cases (.head ()) before with ⟨rfl, hcell⟩ | ⟨front, k, rfl, hcell⟩
  · rw [hcell]
    exact h.2
  · rw [hcell]
    -- The chain up to `k` stays, and from the link of `k` it goes on behind `n`.
    have hgen : ∀ start, Chain t.next start (front ++ [k] ++ n :: after) →
        Chain (Function.update t.next k (t.next n)) start (front ++ [k] ++ after) := by
      clear h hcell
      induction front with
      | nil =>
        intro start hchain
        obtain ⟨hstart, -, hrest⟩ := hchain
        refine ⟨hstart, ?_⟩
        rw [Function.update_self]
        apply hrest.update_of_notMem
        simp only [List.nil_append, List.singleton_append, List.nodup_cons, List.mem_cons,
          not_or] at hnodup
        exact hnodup.1.2
      | cons m front ih =>
        intro start hchain
        have hmk : m ≠ k := by
          rintro rfl
          simp at hnodup
        refine ⟨hchain.1, ?_⟩
        rw [Function.update_of_ne hmk]
        exact ih (List.nodup_cons.mp hnodup).2 _ hchain.2
    exact hgen t.start h

end Intrusive
