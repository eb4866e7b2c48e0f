import ClMalloc.Lib.Transition
import Mathlib.Logic.Function.Basic

/-!
# Objects that seem atomic to their callers

The callers of an object see calls and returns. An atomic object performs each operation at
one instant between the call and the return, as a sequential specification says. A history of
calls and returns is explained when an atomic object can have it. A system whose steps an
atomic object follows, with the calls and returns each step shows, has explained histories
only, so its operations seem to happen one after the other, each while it was called.
-/

namespace Linearizable

open Transition

variable {S A T Op R X : Type*}

/-- What the callers of an object see. -/
inductive Event (T Op R : Type*)
  | call (t : T) (op : Op)
  | ret (t : T) (r : R)
  deriving DecidableEq

/-- Where a caller is: outside, called with nothing done yet, or done with a result to return. -/
inductive Phase (Op R : Type*)
  | idle
  | called (op : Op)
  | done (r : R)

/-- An object with a state, and where its callers are. -/
structure Atomic (X T Op R : Type*) where
  state : X
  phase : T → Phase Op R

/-- No operation was called yet. -/
def Atomic.new (x : X) : Atomic X T Op R := ⟨x, fun _ => .idle⟩

variable [DecidableEq T]

/-- A caller comes to another point. -/
def Atomic.goto (o : Atomic X T Op R) (t : T) (p : Phase Op R) : Atomic X T Op R :=
  { o with phase := Function.update o.phase t p }

/-- The atomic object can have the history: every operation takes effect at one instant between its
call and its return, and the specification allows its result there. -/
inductive Runs (spec : X → Op → R → X → Prop) :
    Atomic X T Op R → List (Event T Op R) → Atomic X T Op R → Prop
  | refl (o : Atomic X T Op R) : Runs spec o [] o
  | call {o o' : Atomic X T Op R} {t : T} {op : Op}
      {events : List (Event T Op R)} (hidle : o.phase t = .idle)
    (hrest : Runs spec (o.goto t (.called op)) events o') : Runs spec o (.call t op :: events) o'
  | commit {o o' : Atomic X T Op R} {t : T} {op : Op} {r : R} {x : X} {events : List (Event T Op R)}
    (hcalled : o.phase t = .called op) (hspec : spec o.state op r x)
    (hrest : Runs spec (Atomic.goto { o with state := x } t (.done r)) events o') :
    Runs spec o events o'
  | ret {o o' : Atomic X T Op R} {t : T} {r : R}
      {events : List (Event T Op R)} (hdone : o.phase t = .done r)
    (hrest : Runs spec (o.goto t .idle) events o') : Runs spec o (.ret t r :: events) o'

variable {spec : X → Op → R → X → Prop} {o o₁ o₂ : Atomic X T Op R}
  {events later : List (Event T Op R)} {t : T} {op : Op} {r : R} {x : X}

/-- One history after another. -/
theorem Runs.append (hruns : Runs spec o events o₁) (hlater : Runs spec o₁ later o₂) :
    Runs spec o (events ++ later) o₂ := by
  induction hruns with
  | refl => exact hlater
  | call hidle _ ih => exact .call hidle (ih hlater)
  | commit hcalled hspec _ ih => exact .commit hcalled hspec (ih hlater)
  | ret hdone _ ih => exact .ret hdone (ih hlater)

/-- An operation is called. -/
theorem runs_call (hidle : o.phase t = .idle) (op : Op) :
    Runs spec o [.call t op] (o.goto t (.called op)) :=
  .call hidle (.refl _)

/-- An operation takes effect, unseen. -/
theorem runs_commit (hcalled : o.phase t = .called op) (hspec : spec o.state op r x) :
    Runs spec o [] (Atomic.goto { o with state := x } t (.done r)) :=
  .commit hcalled hspec (.refl _)

/-- An operation returns. -/
theorem runs_ret (hdone : o.phase t = .done r) :
    Runs spec o [.ret t r] (o.goto t .idle) := .ret hdone (.refl _)

/-- The last point a caller comes to counts. -/
theorem Atomic.goto_goto (o : Atomic X T Op R) (t : T) (p q : Phase Op R) :
    (o.goto t p).goto t q = o.goto t q := by
  simp [Atomic.goto]

/-- A caller that comes to where it is. -/
theorem Atomic.goto_self {p : Phase Op R} (h : o.phase t = p) : o.goto t p = o :=
  by simp [Atomic.goto, ← h]

/-- An operation takes effect and returns at once. -/
theorem runs_commit_ret (hcalled : o.phase t = .called op) (hspec : spec o.state op r x) :
    Runs spec o [.ret t r] (Atomic.goto { o with state := x } t .idle) := by
  have hret : Runs spec (Atomic.goto { o with state := x } t (.done r)) [.ret t r] _ :=
    runs_ret (Function.update_self _ _ _)
  rw [Atomic.goto_goto] at hret
  exact (runs_commit hcalled hspec).append hret

/-- An operation is called and takes effect at once. -/
theorem runs_call_commit (hidle : o.phase t = .idle) (hspec : spec o.state op r x) :
    Runs spec o [.call t op] (Atomic.goto { o with state := x } t (.done r)) := by
  have hcommit := runs_commit (o := o.goto t (.called op)) (t := t)
    (Function.update_self _ _ _) hspec
  have hsame : Atomic.goto { o.goto t (.called op) with state := x } t (.done r) =
      Atomic.goto { o with state := x } t (.done r) := by simp [Atomic.goto]
  rw [hsame] at hcommit
  exact (runs_call hidle op).append hcommit

/-- An operation is called, takes effect and returns at once. -/
theorem runs_whole (hidle : o.phase t = .idle) (hspec : spec o.state op r x) :
    Runs spec o [.call t op, .ret t r] { o with state := x } := by
  have hcommit := runs_commit_ret (o := o.goto t (.called op)) (t := t)
    (Function.update_self _ _ _) hspec
  have hsame : Atomic.goto { o.goto t (.called op) with state := x } t .idle = { o with
    state := x } := by
    simp [Atomic.goto, ← hidle]
  rw [hsame] at hcommit
  exact (runs_call hidle op).append hcommit

/-- The calls and returns along a run. -/
def history (step : S → A → Option S) (events : S → A → List (Event T Op R)) :
    S → List A → List (Event T Op R)
  | _, [] => []
  | s, a :: rest =>
    match step s a with
    | some s' => events s a ++ history step events s' rest
    | none => []

/-- When an atomic object follows every admitted step, it follows the runs that meet the guard. -/
theorem runs_of_simulation {step : S → A → Option S} {shows : S → A → List (Event T Op R)}
    (guard : S → A → Prop) (related : S → Atomic X T Op R → Prop)
    (hstep : ∀ s o a s', related s o → guard s a → step s a = some s' →
      ∃ o', Runs spec o (shows s a) o' ∧ related s' o') {s s' : S} {labels : List A}
    (hrelated : related s o) (hmeets : Meets step guard s labels)
    (hrun : run step s labels = some s') :
    ∃ o', Runs spec o (history step shows s labels) o' ∧ related s' o' := by
  induction labels generalizing s o with
  | nil =>
    obtain rfl := Option.some.inj hrun
    exact ⟨o, .refl o, hrelated⟩
  | cons a rest ih =>
    obtain ⟨s₁, hfirst, hrest⟩ := run_cons_eq_some.mp hrun
    obtain ⟨o₁, hruns₁, hrelated₁⟩ := hstep s o a s₁ hrelated hmeets.1 hfirst
    obtain ⟨o₂, hruns₂, hrelated₂⟩ := ih hrelated₁ (hmeets.2 s₁ hfirst) hrest
    refine ⟨o₂, ?_, hrelated₂⟩
    simp only [history, hfirst]
    exact hruns₁.append hruns₂

end Linearizable
