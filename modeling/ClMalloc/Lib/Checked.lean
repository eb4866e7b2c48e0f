import Mathlib.Data.Nat.Notation

/-!
# Checks that stop a program

An addition that leaves its type's range, a subtraction below zero, an index out of bounds
and a failed assertion stop the program; here they have no result. A computation made of
such steps has a result when every check passes.
-/

namespace Checked

/-- Addition in a type with `limit` values. -/
def add (limit a b : ℕ) : Option ℕ := if a + b < limit then some (a + b) else none

/-- Subtraction of natural numbers. -/
def sub (a b : ℕ) : Option ℕ := if b ≤ a then some (a - b) else none

/-- An assertion, or the bound of an index. -/
def require (p : Prop) [Decidable p] : Option Unit := if p then some () else none

variable {limit a b : ℕ}

/-- A sum in range is the result. -/
theorem add_eq (h : a + b < limit) : add limit a b = some (a + b) := if_pos h

/-- A difference that is not negative is the result. -/
theorem sub_eq (h : b ≤ a) : sub a b = some (a - b) := if_pos h

/-- A check that passes lets the computation go on. -/
theorem require_eq {p : Prop} [Decidable p] (h : p) : require p = some () := if_pos h

/-- A check that fails stops the computation. -/
theorem require_eq_none {p : Prop} [Decidable p] (h : ¬p) : require p = none := if_neg h

end Checked
