import Mathlib.Data.List.Nodup
import Mathlib.Logic.Function.Basic

/-!
# Singly linked chains threaded through their own nodes

The link of each node is stored in the node, so a chain is a start pointer together
with a next function. `Chain next start nodes` says that following the links from
`start` meets exactly `nodes` and then null. A chain is determined by its start, never
visits a node twice, and does not depend on the links of nodes outside it.
-/

namespace Intrusive

variable {N : Type*} {next next' : N → Option N} {start : Option N} {n : N}
  {nodes left right : List N}

/-- Following `next` from `start` meets exactly `nodes`, in order, and then null. -/
def Chain (next : N → Option N) : Option N → List N → Prop
  | start, [] => start = none
  | start, n :: rest => start = some n ∧ Chain next (next n) rest

/-- The empty chain starts at null. -/
@[simp] theorem chain_nil : Chain next start [] ↔ start = none := Iff.rfl

/-- A nonempty chain starts at its first node and continues through that node's link. -/
@[simp] theorem chain_cons :
    Chain next start (n :: nodes) ↔ start = some n ∧ Chain next (next n) nodes :=
  Iff.rfl

/-- Only the empty chain starts at null. -/
theorem Chain.eq_nil (h : Chain next none nodes) : nodes = [] := by
  cases nodes with
  | nil => rfl
  | cons n rest => simp at h

/-- A chain that starts at a node has that node first. -/
theorem Chain.exists_cons (h : Chain next (some n) nodes) :
    ∃ rest, nodes = n :: rest ∧ Chain next (next n) rest := by
  cases nodes with
  | nil => simp at h
  | cons m rest =>
    simp only [chain_cons, Option.some.injEq] at h
    obtain ⟨rfl, hrest⟩ := h
    exact ⟨rest, rfl, hrest⟩

/-- A chain starts at its first node. -/
theorem Chain.head_eq (h : Chain next start nodes) : start = nodes.head? := by
  cases nodes with
  | nil => exact h
  | cons n rest => exact h.1

/-- The start pointer determines the chain. -/
theorem Chain.unique (hl : Chain next start left) (hr : Chain next start right) : left = right := by
  induction left generalizing start right with
  | nil =>
    rw [chain_nil] at hl
    subst hl
    exact hr.eq_nil.symm
  | cons n rest ih =>
    obtain ⟨rfl, hrest⟩ := hl
    obtain ⟨rest', rfl, hrest'⟩ := hr.exists_cons
    rw [ih hrest hrest']

/-- A chain only reads the links of its own nodes. -/
theorem Chain.congr (h : Chain next start nodes) (hnext : ∀ n ∈ nodes, next' n = next n) :
    Chain next' start nodes := by
  induction nodes generalizing start with
  | nil => exact h
  | cons n rest ih =>
    obtain ⟨hstart, hrest⟩ := h
    refine ⟨hstart, ?_⟩
    rw [hnext n List.mem_cons_self]
    exact ih hrest fun m hm => hnext m (List.mem_cons_of_mem _ hm)

/-- Each node of a chain starts the chain of its own suffix. -/
theorem Chain.suffix (h : Chain next start nodes) (hn : n ∈ nodes) :
    ∃ before after, nodes = before ++ n :: after ∧ Chain next (some n) (n :: after) := by
  induction nodes generalizing start with
  | nil => simp at hn
  | cons m rest ih =>
    obtain ⟨hstart, hrest⟩ := h
    rcases List.mem_cons.mp hn with rfl | hmem
    · exact ⟨[], rest, rfl, rfl, hrest⟩
    · obtain ⟨before, after, rfl, hafter⟩ := ih hrest hmem
      exact ⟨m :: before, after, rfl, hafter⟩

/-- A chain that ends visits no node twice. -/
theorem Chain.nodup (h : Chain next start nodes) : nodes.Nodup := by
  induction nodes generalizing start with
  | nil => exact List.nodup_nil
  | cons n rest ih =>
    obtain ⟨hstart, hrest⟩ := h
    refine List.nodup_cons.mpr ⟨fun hmem => ?_, ih hrest⟩
    obtain ⟨before, after, hsplit, hafter⟩ := hrest.suffix hmem
    have heq : n :: rest = n :: after := Chain.unique ⟨rfl, hrest⟩ hafter
    have hlen := congrArg List.length hsplit
    simp only [List.cons.injEq, true_and] at heq
    simp only [heq, List.length_append, List.length_cons] at hlen
    omega

/-- Writing the link of a node outside the chain leaves the chain as it was. -/
theorem Chain.update_of_notMem [DecidableEq N] (h : Chain next start nodes) (hn : n ∉ nodes)
    (link : Option N) : Chain (Function.update next n link) start nodes := by
  refine h.congr fun m hm => Function.update_of_ne ?_ _ _
  rintro rfl
  exact hn hm

/-- A node linked to the old start begins a chain one longer. -/
theorem Chain.push [DecidableEq N] (h : Chain next start nodes) (hn : n ∉ nodes) :
    Chain (Function.update next n start) (some n) (n :: nodes) := by
  refine ⟨rfl, ?_⟩
  rw [Function.update_self]
  exact h.update_of_notMem hn start

/-- A node whose link already is the start begins a chain one longer. -/
theorem Chain.cons (h : Chain next start nodes) (hn : next n = start) :
    Chain next (some n) (n :: nodes) :=
  ⟨rfl, hn ▸ h⟩

/-- Follow the links for at most `fuel` nodes. -/
def walk (next : N → Option N) : ℕ → Option N → List N
  | _, none => []
  | 0, some _ => []
  | fuel + 1, some n => n :: walk next fuel (next n)

/-- A walk with enough fuel meets the nodes of the chain. -/
theorem Chain.walk_eq {fuel : ℕ} (h : Chain next start nodes) (hfuel : nodes.length ≤ fuel) :
    walk next fuel start = nodes := by
  induction nodes generalizing start fuel with
  | nil =>
    rw [chain_nil] at h
    subst h
    cases fuel <;> rfl
  | cons n rest ih =>
    obtain ⟨rfl, hrest⟩ := h
    cases fuel with
    | zero => simp at hfuel
    | succ fuel =>
      rw [walk, ih hrest]
      simpa using hfuel

/-- Following `next` from `start` meets `n`. -/
inductive Reaches (next : N → Option N) : Option N → N → Prop
  | here (n : N) : Reaches next (some n) n
  | there {m n : N} (h : Reaches next (next m) n) : Reaches next (some m) n

/-- A chain reaches exactly its nodes. -/
theorem Chain.reaches_iff (h : Chain next start nodes) : Reaches next start n ↔ n ∈ nodes := by
  constructor
  · intro hreach
    induction hreach generalizing nodes with
    | here n =>
      obtain ⟨rest, rfl, -⟩ := h.exists_cons
      exact List.mem_cons_self
    | there _ ih =>
      obtain ⟨rest, rfl, hrest⟩ := h.exists_cons
      exact List.mem_cons_of_mem _ (ih hrest)
  · intro hn
    induction nodes generalizing start with
    | nil => simp at hn
    | cons m rest ih =>
      obtain ⟨rfl, hrest⟩ := h
      rcases List.mem_cons.mp hn with rfl | hmem
      · exact .here n
      · exact .there (ih hrest hmem)

end Intrusive
