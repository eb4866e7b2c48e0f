import Mathlib.Data.List.Basic

/-!
# Pushes and pops of one container, as a log

A log lists the pushes and pops of a container, newest first. Where every pop is of a node
whose newest event was a push, two pops of one node always have a push of it in between.
-/

namespace Intrusive

/-- A node enters or leaves the container. -/
inductive StackEvent (N : Type*)
  | pushed (n : N)
  | popped (n : N)
  deriving DecidableEq

variable {N : Type*} [DecidableEq N] {n m : N} {log newer older : List (StackEvent N)}

/-- The newest event of the node is a push. -/
def lastIsPush : List (StackEvent N) → N → Bool
  | [], _ => false
  | .pushed m :: rest, n => if m = n then true else lastIsPush rest n
  | .popped m :: rest, n => if m = n then false else lastIsPush rest n

/-- After a push the node is in the container, and the others are where they were. -/
theorem lastIsPush_pushed :
    lastIsPush (.pushed m :: log) n = true ↔ n = m ∨ lastIsPush log n = true := by
  by_cases hn : m = n
  · simp [lastIsPush, hn]
  · simp [lastIsPush, hn, Ne.symm hn]

/-- After a pop the node is out of the container, and the others are where they were. -/
theorem lastIsPush_popped :
    lastIsPush (.popped m :: log) n = true ↔ n ≠ m ∧ lastIsPush log n = true := by
  by_cases hn : m = n
  · simp [lastIsPush, hn]
  · simp [lastIsPush, hn, Ne.symm hn]

/-- Every pop is of a node that was in the container. -/
def Alternates (log : List (StackEvent N)) : Prop :=
  ∀ n newer older, log = newer ++ .popped n :: older → lastIsPush older n = true

/-- The empty log alternates. -/
theorem alternates_nil : Alternates ([] : List (StackEvent N)) := by simp [Alternates]

/-- A push keeps the log alternating. -/
theorem Alternates.push (h : Alternates log) : Alternates (.pushed m :: log) := by
  intro n newer older hlog
  cases newer with
  | nil => simp at hlog
  | cons e newer =>
    obtain ⟨-, htail⟩ := List.cons.inj hlog
    exact h n newer older htail

/-- A pop of a node in the container keeps the log alternating. -/
theorem Alternates.pop (h : Alternates log) (hm : lastIsPush log m = true) :
    Alternates (.popped m :: log) := by
  intro n newer older hlog
  cases newer with
  | nil =>
    obtain ⟨hn, htail⟩ := List.cons.inj hlog
    cases hn
    exact htail ▸ hm
  | cons e newer =>
    obtain ⟨-, htail⟩ := List.cons.inj hlog
    exact h n newer older htail

/-- A node whose newest event is a push was pushed after its last pop. -/
theorem pushed_mem_of_lastIsPush (h : lastIsPush (newer ++ .popped n :: older) n = true) :
    .pushed n ∈ newer := by
  induction newer with
  | nil => simp [lastIsPush] at h
  | cons e rest ih =>
    cases e with
    | pushed m =>
      by_cases hm : m = n
      · subst hm
        exact List.mem_cons_self
      · simp only [List.cons_append, lastIsPush, hm, if_false] at h
        exact List.mem_cons_of_mem _ (ih h)
    | popped m =>
      by_cases hm : m = n
      · simp [lastIsPush, hm] at h
      · simp only [List.cons_append, lastIsPush, hm, if_false] at h
        exact List.mem_cons_of_mem _ (ih h)

/-- Between two pops of a node there is a push of it. -/
theorem Alternates.pushed_between (h : Alternates log) {between : List (StackEvent N)}
    (hlog : log = newer ++ .popped n :: between ++ .popped n :: older) : .pushed n ∈ between := by
  have hsplit : log = newer ++ .popped n :: (between ++ .popped n :: older) := by
    rw [hlog, List.append_assoc]
    rfl
  exact pushed_mem_of_lastIsPush (h n newer _ hsplit)

end Intrusive
