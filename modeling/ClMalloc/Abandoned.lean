import ClMalloc.Lib.Chain
import ClMalloc.Lib.Placement
import ClMalloc.Lib.StackLog
import ClMalloc.Lib.Transition

/-!
# The abandoned list of one size class, at the granularity of single atomic steps

`abandon_slab` pushes a slab by compare-exchange on the head, which may fail spuriously and
retries with the head it saw; `adopt_all` takes the whole list by a swap, and the adopter
then walks it through `next_link`, which is the same field the heaps' queues use. A slab's
owner may rewrite its `next_link` at any time, hand it back to the pool, or abandon it again
while other threads still remember it as an old head.

`since` lists the slabs pushed since the last swap, newest first; `taken t` is what the last
swap of thread `t` found there, `walked t` what the thread has walked of it and `ahead t`
what is left. `present` lists the slabs that exist and `log` the pushes and adoptions. None
of these is read by a step.
-/

namespace ClMalloc

open Intrusive Placement

/-- Where a thread is in `abandon_slab`, `adopt_all` or the walk after it: the step it takes
next. -/
inductive AbandonCall
  | idle
  | loadHead (slab : ℕ)
  | setLink (slab : ℕ) (current : Option ℕ)
  | cas (slab : ℕ) (current : Option ℕ)
  | adoptLoad
  | adoptSwap
  | walking (cursor : Option ℕ)
  deriving DecidableEq

/-- The slab a thread is abandoning. -/
def AbandonCall.slab : AbandonCall → Option ℕ
  | .loadHead slab | .setLink slab _ | .cas slab _ => some slab
  | _ => none

/-- The abandoned list, the links, and the threads. -/
structure AbandonSys where
  head : Option ℕ
  nextLink : ℕ → Option ℕ
  call : ℕ → AbandonCall
  owned : ℕ → List ℕ
  since : List ℕ
  taken : ℕ → List ℕ
  walked : ℕ → List ℕ
  ahead : ℕ → List ℕ
  present : List ℕ
  log : List (StackEvent ℕ)

/-- No slab exists yet. -/
def AbandonSys.new : AbandonSys where
  head := none
  nextLink := fun _ => none
  call := fun _ => .idle
  owned := fun _ => []
  since := []
  taken := fun _ => []
  walked := fun _ => []
  ahead := fun _ => []
  present := []
  log := []

/-- Move a thread to its next step. -/
def AbandonSys.goto (s : AbandonSys) (t : ℕ) (k : AbandonCall) : AbandonSys :=
  { s with call := Function.update s.call t k }

/-- Write the link of a slab. -/
def AbandonSys.setNextLink (s : AbandonSys) (slab : ℕ) (next : Option ℕ) : AbandonSys :=
  { s with nextLink := Function.update s.nextLink slab next }

/-- The compare-exchange of `abandon_slab` succeeds. -/
def AbandonSys.push (s : AbandonSys) (t slab : ℕ) : AbandonSys :=
  { s with
    head := some slab
    owned := Function.update s.owned t ((s.owned t).erase slab)
    since := slab :: s.since
    log := .pushed slab :: s.log }

/-- The swap of `adopt_all`. -/
def AbandonSys.swap (s : AbandonSys) (t : ℕ) : AbandonSys :=
  { s with
    head := none
    since := []
    taken := Function.update s.taken t s.since
    walked := Function.update s.walked t []
    ahead := Function.update s.ahead t s.since }

/-- The adopter takes the next slab of its chain. -/
def AbandonSys.walk (s : AbandonSys) (t slab : ℕ) : AbandonSys :=
  { s with
    owned := Function.update s.owned t (slab :: s.owned t)
    walked := Function.update s.walked t (s.walked t ++ [slab])
    ahead := Function.update s.ahead t ((s.ahead t).erase slab)
    log := .popped slab :: s.log }

/-- The next step of a thread in `abandon_slab`, `adopt_all` or the walk. -/
def AbandonSys.advance (s : AbandonSys) (t : ℕ) (spurious : Bool) : Option AbandonSys :=
  match s.call t with
  | .idle => none
  | .loadHead slab => some (s.goto t (.setLink slab s.head))
  | .setLink slab current => some ((s.setNextLink slab current).goto t (.cas slab current))
  | .cas slab current =>
    if s.head = current ∧ spurious = false then some ((s.push t slab).goto t .idle)
    else some (s.goto t (.setLink slab s.head))
  | .adoptLoad => some (s.goto t (if s.head = none then .idle else .adoptSwap))
  | .adoptSwap => some ((s.swap t).goto t (.walking s.head))
  | .walking none => some (s.goto t .idle)
  | .walking (some slab) => some ((s.walk t slab).goto t (.walking (s.nextLink slab)))

/-- The thread owns the slab and is not in the middle of abandoning it. -/
def AbandonSys.Free (s : AbandonSys) (t slab : ℕ) : Prop :=
  slab ∈ s.owned t ∧ (s.call t).slab ≠ some slab

/-- Whether a thread may use a slab can be computed. -/
instance (s : AbandonSys) (t slab : ℕ) : Decidable (s.Free t slab) := by
  unfold AbandonSys.Free
  infer_instance

/-- One atomic step. -/
inductive AbandonLabel
  | create (t slab : ℕ)
  | release (t slab : ℕ)
  | relink (t slab : ℕ) (next : Option ℕ)
  | abandonSlab (t slab : ℕ)
  | adoptAll (t : ℕ)
  | advance (t : ℕ) (spurious : Bool)
  deriving DecidableEq

/-- Owners use their slabs as they like; the two operations advance step by step. -/
def abandonStep (s : AbandonSys) : AbandonLabel → Option AbandonSys
  | .create t slab =>
    if slab ∉ s.present then
      some { s with
        owned := Function.update s.owned t (slab :: s.owned t)
        present := slab :: s.present }
    else none
  | .release t slab =>
    if s.Free t slab then
      some { s with
        owned := Function.update s.owned t ((s.owned t).erase slab)
        present := s.present.erase slab }
    else none
  | .relink t slab next => if s.Free t slab then some (s.setNextLink slab next) else none
  | .abandonSlab t slab =>
    if s.call t = .idle ∧ slab ∈ s.owned t then some (s.goto t (.loadHead slab)) else none
  | .adoptAll t => if s.call t = .idle then some (s.goto t .adoptLoad) else none
  | .advance t spurious => s.advance t spurious

/-- The places a slab can be in: the abandoned chain, an adopter's private chain, an owner's
hands. -/
inductive AbandonPlace
  | chain
  | adopter (t : ℕ)
  | owner (t : ℕ)
  deriving DecidableEq

/-- The slab is in the place, as the pointers have it. -/
def AbandonSys.At (s : AbandonSys) : AbandonPlace → ℕ → Prop
  | .chain, slab => Reaches s.nextLink s.head slab
  | .adopter t, slab => ∃ cursor, s.call t = .walking cursor ∧ Reaches s.nextLink cursor slab
  | .owner t, slab => slab ∈ s.owned t

/-- Every slab is in one place, every chain ends and holds what it should, and no slab is adopted
twice in a row. -/
structure AbandonSys.Sound (s : AbandonSys) : Prop where
  place : ∀ slab ∈ s.present, ∃! place, s.At place slab
  absent : ∀ slab, slab ∉ s.present → ∀ place, ¬s.At place slab
  chain : Chain s.nextLink s.head s.since
  walk : ∀ t cursor, s.call t = .walking cursor →
    ∃ rest, s.taken t = s.walked t ++ rest ∧ Chain s.nextLink cursor rest
  adoptedOnce : ∀ slab newer between older,
    s.log = newer ++ .popped slab :: between ++ .popped slab :: older → .pushed slab ∈ between

/-- The lists behind the places. -/
def AbandonSys.lists (s : AbandonSys) : AbandonPlace → List ℕ
  | .chain => s.since
  | .adopter t => s.ahead t
  | .owner t => s.owned t

/-- The lists agree with one map of the slabs, and the pointers with the lists. -/
structure AbandonInv (s : AbandonSys) (place : ℕ → Option AbandonPlace) : Prop where
  placed : Placed s.lists place
  present : ∀ slab, slab ∈ s.present ↔ (place slab).isSome = true
  present_nodup : s.present.Nodup
  chain : Chain s.nextLink s.head s.since
  walks : ∀ t cursor, s.call t = .walking cursor →
    Chain s.nextLink cursor (s.ahead t) ∧ s.taken t = s.walked t ++ s.ahead t
  resting : ∀ t, (∀ cursor, s.call t ≠ .walking cursor) → s.ahead t = []
  inHand : ∀ t slab, (s.call t).slab = some slab → slab ∈ s.owned t
  linked : ∀ t slab current, s.call t = .cas slab current → s.nextLink slab = current
  logged : ∀ slab, lastIsPush s.log slab = true ↔ slab ∈ s.since ∨ ∃ t, slab ∈ s.ahead t
  alternates : Alternates s.log

/-- Before any slab exists the invariant holds. -/
theorem abandonInv_new : AbandonInv AbandonSys.new fun _ => none where
  placed := fun place => by cases place <;> simp [AbandonSys.lists, AbandonSys.new]
  present := by simp [AbandonSys.new]
  present_nodup := List.nodup_nil
  chain := rfl
  walks := by simp [AbandonSys.new]
  resting := by simp [AbandonSys.new]
  inHand := by simp [AbandonSys.new, AbandonCall.slab]
  linked := by simp [AbandonSys.new]
  logged := by simp [AbandonSys.new, lastIsPush]
  alternates := alternates_nil

end ClMalloc
