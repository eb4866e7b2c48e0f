import Mathlib.Logic.Function.Basic

/-!
# Threads that run programs of atomic actions

A program ends with a result, or takes one atomic action on a shared state and goes on with
the answer of the action. An input the environment gives with each step may decide what an
action does, and an action may fail. Threads run their programs in any interleaving.

Each thread has a view of the state. A program is safe for a view when each action it takes
succeeds in every state the views agree with, keeps that agreement, and changes no view but
its own thread's. Another thread can then not make a safe program unsafe, so programs are
verified one thread at a time.
-/

namespace Threads

/-- A program with results in `α`: inputs `I`, states `S`, failures `E`. -/
inductive Prog (I S E α : Type) : Type 1
  | ret (a : α)
  | act {β : Type} (f : I → S → Except E (S × β)) (k : β → Prog I S E α)

variable {I S E α β γ : Type}

/-- Run a program, then the one its result chooses. -/
def Prog.bind : Prog I S E α → (α → Prog I S E β) → Prog I S E β
  | .ret a, g => g a
  | .act f k, g => .act f fun b => (k b).bind g

instance : Monad (Prog I S E) where
  pure := .ret
  bind := .bind

/-- A program that does nothing before another. -/
@[simp] theorem Prog.pure_bind (a : α) (g : α → Prog I S E β) :
    (pure a : Prog I S E α) >>= g = g a := rfl

/-- The first action of a program is the first action of its continuation by another. -/
@[simp] theorem Prog.act_bind (f : I → S → Except E (S × β)) (k : β → Prog I S E α)
    (g : α → Prog I S E γ) :
    Prog.act f k >>= g = Prog.act f fun b => k b >>= g := rfl

/-- One atomic action. -/
def atomically (f : S → Except E (S × α)) : Prog I S E α := .act (fun _ => f) .ret

/-- One atomic action the input decides. -/
def asking (f : I → S → Except E (S × α)) : Prog I S E α := .act f .ret

/-- Read something of the state. -/
def look (f : S → α) : Prog I S E α := atomically fun s => .ok (s, f s)

/-- Change the state. -/
def change (f : S → S) : Prog I S E Unit := atomically fun s => .ok (f s, ())

/-- Change the state, or fail. -/
def attempt (f : S → Except E S) : Prog I S E Unit :=
  atomically fun s => (f s).map fun s' => (s', ())

/-- Fail. -/
def fail (e : E) : Prog I S E α := atomically fun _ => .error e

/-- A program run without interruption, every step with the same input. -/
def Prog.eval (i : I) : Prog I S E α → S → Except E (S × α)
  | .ret a, s => .ok (s, a)
  | .act f k, s => f i s >>= fun r => (k r.2).eval i r.1

/-- Two programs run one after the other. -/
theorem Prog.eval_bind (i : I) (p : Prog I S E α) (g : α → Prog I S E β) (s : S) :
    (p >>= g).eval i s = p.eval i s >>= fun r => (g r.2).eval i r.1 := by
  induction p generalizing s with
  | ret a => rfl
  | act f k ih =>
    change (f i s >>= fun r => (k r.2 >>= g).eval i r.1) =
      (f i s >>= fun r => (k r.2).eval i r.1) >>= _
    cases f i s with
    | error e => rfl
    | ok r => exact ih r.2 r.1

/-- A program without actions. -/
@[simp] theorem Prog.eval_pure (i : I) (a : α) (s : S) :
    (pure a : Prog I S E α).eval i s = .ok (s, a) := rfl

/-- One action run alone. -/
@[simp] theorem Prog.eval_atomically (i : I) (f : S → Except E (S × α)) (s : S) :
    (atomically f : Prog I S E α).eval i s = f s := by
  change (f s >>= fun r => Except.ok (r.1, r.2)) = f s
  cases f s <;> rfl

/-- One action with an input run alone. -/
@[simp] theorem Prog.eval_asking (i : I) (f : I → S → Except E (S × α)) (s : S) :
    (asking f : Prog I S E α).eval i s = f i s := by
  change (f i s >>= fun r => Except.ok (r.1, r.2)) = f i s
  cases f i s <;> rfl

/-- A read changes nothing. -/
@[simp] theorem Prog.eval_look (i : I) (f : S → α) (s : S) :
    (look f : Prog I S E α).eval i s = .ok (s, f s) := rfl

/-- A change run alone. -/
@[simp] theorem Prog.eval_change (i : I) (f : S → S) (s : S) :
    (change f : Prog I S E Unit).eval i s = .ok (f s, ()) := rfl

/-- A change that may fail run alone. -/
@[simp] theorem Prog.eval_attempt (i : I) (f : S → Except E S) (s : S) :
    (attempt f : Prog I S E Unit).eval i s = (f s).map fun s' => (s', ()) := eval_atomically i _ s

/-- A failure. -/
@[simp] theorem Prog.eval_fail (i : I) (e : E) (s : S) :
    (fail e : Prog I S E α).eval i s = .error e := rfl

section Safety

variable {T V K : Type*} [DecidableEq T]

/-- What threads agree on: which views fit a state in a context, and which failures are the
environment's. -/
structure Discipline (I S E : Type) (T V K : Type*) where
  holds : K → S → (T → V) → Prop
  blames : I → E → Prop

/-- Every action of the program succeeds wherever the views fit, changes the view of thread `t`
only, and its results satisfy `post`; failures are the environment's. -/
def Prog.Safe (d : Discipline I S E T V K) (t : T) (post : α → V → Prop) : Prog I S E α → V → Prop
  | .ret a, v => post a v
  | .act f k, v => ∀ ctx s views i, d.holds ctx s views → views t = v →
      (∃ s' b v', f i s = .ok (s', b) ∧ d.holds ctx s' (Function.update views t v') ∧
        (k b).Safe d t post v') ∨ ∃ e, f i s = .error e ∧ d.blames i e

variable {d : Discipline I S E T V K} {t : T} {post : α → V → Prop} {v : V}

/-- A safe program stays safe for a weaker postcondition. -/
theorem Prog.Safe.mono {post' : α → V → Prop} {p : Prog I S E α} (hsafe : p.Safe d t post v)
    (hpost : ∀ a v, post a v → post' a v) : p.Safe d t post' v := by
  induction p generalizing v with
  | ret a => exact hpost a v hsafe
  | act f k ih =>
    intro ctx s views i hholds hview
    rcases hsafe ctx s views i hholds hview with ⟨s', b, v', hstep, hholds', hrest⟩ | hblame
    · exact .inl ⟨s', b, v', hstep, hholds', ih b hrest⟩
    · exact .inr hblame

/-- A safe program followed by one that is safe from where it ends. -/
theorem Prog.Safe.bind {post' : β → V → Prop} {p : Prog I S E α} {g : α → Prog I S E β}
    (hsafe : p.Safe d t post v) (hrest : ∀ a v, post a v → (g a).Safe d t post' v) :
    (p >>= g).Safe d t post' v := by
  induction p generalizing v with
  | ret a => exact hrest a v hsafe
  | act f k ih =>
    intro ctx s views i hholds hview
    rcases hsafe ctx s views i hholds hview with ⟨s', b, v', hstep, hholds', hsafe'⟩ | hblame
    · exact .inl ⟨s', b, v', hstep, hholds', ih b hsafe'⟩
    · exact .inr hblame

/-- A program without actions is safe if its result is as promised. -/
theorem Prog.Safe.pure {a : α} (hpost : post a v) : (pure a : Prog I S E α).Safe d t post v := hpost

/-- One action is safe if it succeeds and leaves a view that satisfies the postcondition. -/
theorem safe_atomically {f : S → Except E (S × α)}
    (hstep : ∀ ctx s views, d.holds ctx s views → views t = v →
      ∃ s' a v', f s = .ok (s', a) ∧ d.holds ctx s' (Function.update views t v') ∧ post a v') :
    (atomically f : Prog I S E α).Safe d t post v := by
  intro ctx s views i hholds hview
  exact .inl (hstep ctx s views hholds hview)

/-- One action with an input is safe if it succeeds as required, or fails by the environment's
fault. -/
theorem safe_asking {f : I → S → Except E (S × α)}
    (hstep : ∀ ctx s views i, d.holds ctx s views → views t = v →
      (∃ s' a v', f i s = .ok (s', a) ∧ d.holds ctx s' (Function.update views t v') ∧ post a v') ∨
        ∃ e, f i s = .error e ∧ d.blames i e) :
    (asking f : Prog I S E α).Safe d t post v := hstep

/-- The programs of all threads are safe for their views. -/
def AllSafe (d : Discipline I S E T V K) (post : T → α → V → Prop)
    (progs : T → Option (Prog I S E α)) (views : T → V) : Prop :=
  ∀ t p, progs t = some p → p.Safe d t (post t) (views t)

variable {post : T → α → V → Prop} {progs : T → Option (Prog I S E α)} {views : T → V} {ctx : K}
  {s : S}

/-- Replacing the program and the view of one thread leaves the others safe. -/
theorem AllSafe.update (hall : AllSafe d post progs views) {prog : Option (Prog I S E α)}
    (hsafe : ∀ p, prog = some p → p.Safe d t (post t) v) :
    AllSafe d post (Function.update progs t prog) (Function.update views t v) := by
  intro t' p hp
  by_cases ht : t' = t
  · subst ht
    rw [Function.update_self] at hp ⊢
    exact hsafe p hp
  · rw [Function.update_of_ne ht] at hp ⊢
    exact hall t' p hp

/-- A step of one thread keeps the views fitting and all programs safe, or fails by the
environment's fault. -/
theorem AllSafe.step (hall : AllSafe d post progs views) (hholds : d.holds ctx s views)
    {f : I → S → Except E (S × β)} {k : β → Prog I S E α} (hprog : progs t = some (.act f k))
    (i : I) :
    (∃ s' b v', f i s = .ok (s', b) ∧ d.holds ctx s' (Function.update views t v') ∧
        AllSafe d post (Function.update progs t (some (k b))) (Function.update views t v')) ∨
      ∃ e, f i s = .error e ∧ d.blames i e := by
  rcases hall t _ hprog ctx s views i hholds rfl with ⟨s', b, v', hstep, hholds', hsafe⟩ | hblame
  · refine .inl ⟨s', b, v', hstep, hholds', hall.update fun p hp => ?_⟩
    cases hp
    exact hsafe
  · exact .inr hblame

end Safety

end Threads
