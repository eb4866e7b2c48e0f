import ClMalloc.HeapInvariant
import Mathlib.Data.Fintype.Basic

/-!
# Slab lists

A slab list is threaded through the headers of its slabs. `prev_link` points at the cell that
holds the slab, so that a slab is removed without knowing its list. Run beside ordinary lists
that a push, a pop and a removal take through `cons`, `tail` and `erase`, the links always
spell these lists out, and a slab that has left its list has no links.
-/

namespace ClMalloc

open Intrusive Placement Transition

variable {H : Type*}

/-- Calls on slab lists. -/
inductive SlabListCall (H : Type*)
  | push (head : H) (slab : ℕ)
  | pop (head : H)
  | remove (slab : ℕ)

/-- The links, the lists they are to spell out, and the slabs that have been in a list. -/
structure SlabLists (H : Type*) where
  links : Links ℕ H
  lists : H → List ℕ
  listed : List ℕ

/-- Empty heads beside whatever the headers hold. -/
def SlabLists.new (nextLink : ℕ → Option ℕ) (prevLink : ℕ → Option (Cell ℕ H)) : SlabLists H :=
  ⟨⟨nextLink, prevLink, fun _ => none⟩, fun _ => [], []⟩

/-- The links spell out the lists; a slab that has left its list has none. -/
structure SlabLists.Refines (s : SlabLists H) : Prop where
  sequence : ∀ head, Chain s.links.next (s.links.head head) (s.lists head)
  held : ∀ head before slab after, s.lists head = before ++ slab :: after →
    s.links.prev slab = some (holder (.head head) before) ∧
      s.links.read (holder (.head head) before) = some slab
  cleared : ∀ slab ∈ s.listed, (∀ head, slab ∉ s.lists head) →
    s.links.next slab = none ∧ s.links.prev slab = none

/-- A call pushes slabs of no list and removes slabs of some list. -/
def SlabLists.Admits (s : SlabLists H) : SlabListCall H → Prop
  | .push _ slab => ∀ head, slab ∉ s.lists head
  | .pop _ => True
  | .remove slab => ∃ head, slab ∈ s.lists head

/-- Over finitely many heads a call's admission can be computed. -/
instance [Fintype H] (s : SlabLists H) : DecidablePred s.Admits
  | .push _ slab => inferInstanceAs (Decidable (∀ head, slab ∉ s.lists head))
  | .pop _ => isTrue trivial
  | .remove slab => inferInstanceAs (Decidable (∃ head, slab ∈ s.lists head))

variable [DecidableEq H]

/-- `slab_list_push`. -/
def slabListPush (links : Links ℕ H) (head : H) (slab : ℕ) : Links ℕ H := links.push head slab

/-- `slab_list_pop`. -/
def slabListPop (links : Links ℕ H) (head : H) : Option (ℕ × Links ℕ H) := links.pop head

/-- `slab_list_remove`, which has no result for a slab in no list. -/
def slabListRemove (links : Links ℕ H) (slab : ℕ) : Option (Links ℕ H) := links.remove slab

/-- What a call does to ordinary lists. -/
def SlabListCall.apply (lists : H → List ℕ) : SlabListCall H → H → List ℕ
  | .push head slab => Function.update lists head (slab :: lists head)
  | .pop head => Function.update lists head (lists head).tail
  | .remove slab => fun head => (lists head).erase slab

/-- One call on the links and on the lists beside them. -/
def slabListStep (s : SlabLists H) (call : SlabListCall H) : Option (SlabLists H) :=
  match call with
  | .push head slab => some ⟨slabListPush s.links head slab, call.apply s.lists, slab :: s.listed⟩
  | .pop head =>
    match slabListPop s.links head with
    | some (_, links) => some ⟨links, call.apply s.lists, s.listed⟩
    | none => some ⟨s.links, call.apply s.lists, s.listed⟩
  | .remove slab =>
    match slabListRemove s.links slab with
    | some links => some ⟨links, call.apply s.lists, s.listed⟩
    | none => none

/-- A pop returns the first slab of its list; a removal leaves the other lists and their slabs'
links as they are. -/
def SlabLists.Confined (s : SlabLists H) : SlabListCall H → Prop
  | .push _ _ => True
  | .pop head => (slabListPop s.links head).map Prod.fst = (s.lists head).head?
  | .remove slab =>
    ∀ head, slab ∈ s.lists head → ∃ links, slabListRemove s.links slab = some links ∧
      (∀ other, other ≠ head → links.head other = s.links.head other ∧
        Chain links.next (links.head other) (s.lists other)) ∧
      ∀ other, other ∉ s.lists head → links.next other = s.links.next other ∧
        links.prev other = s.links.prev other

/-- The invariant of the calls. -/
structure SlabLists.Inv (s : SlabLists H) : Prop where
  linked : Linked s.links s.lists
  separate : Separate s.lists
  cleared : ∀ slab ∈ s.listed, (∀ head, slab ∉ s.lists head) →
    s.links.next slab = none ∧ s.links.prev slab = none

section Run

variable {s s' : SlabLists H} {head : H} {slab : ℕ}

omit [DecidableEq H] in
/-- Linked lists are spelled out by their links. -/
theorem SlabLists.Inv.refines (h : s.Inv) : s.Refines where
  sequence := fun head => (h.linked head).chain
  held := fun head before slab after hsplit => by
    have hlist := h.linked head
    rw [hsplit] at hlist
    exact ⟨hlist.held.2, hlist.held.1⟩
  cleared := h.cleared

omit [DecidableEq H] in
/-- Empty heads spell out empty lists. -/
theorem SlabLists.inv_new (nextLink : ℕ → Option ℕ) (prevLink : ℕ → Option (Cell ℕ H)) :
    (SlabLists.new nextLink prevLink).Inv where
  linked := fun _ => rfl
  separate := ⟨fun _ => List.nodup_nil, fun _ _ _ => List.disjoint_nil_left _⟩
  cleared := fun _ hslab => absurd hslab List.not_mem_nil

/-- Taking a slab out of its list, from the cell that holds it, keeps the invariant. -/
theorem SlabLists.Inv.unlink (h : s.Inv) (hslab : slab ∈ s.lists head) {cell : Cell ℕ H}
    (hprev : s.links.prev slab = some cell) :
    SlabLists.Inv ⟨s.links.unlink cell slab,
      Function.update s.lists head ((s.lists head).erase slab), s.listed⟩ := by
  obtain ⟨hlinked, hnext, hback⟩ := h.linked.unlink h.separate hslab hprev
  refine ⟨hlinked, h.separate.erase hslab, fun other hlisted hnone => ?_⟩
  by_cases hother : other = slab
  · subst hother
    exact ⟨hnext, hback⟩
  · have hfree (tag : H) : other ∉ s.lists tag := by
      intro hmem
      apply hnone tag
      dsimp only
      by_cases htag : tag = head
      · subst htag
        rw [Function.update_self]
        exact (List.mem_erase_of_ne hother).mpr hmem
      · rwa [Function.update_of_ne htag]
    obtain ⟨hnext', hback'⟩ := h.linked.unlink_frame hslab hprev (hfree head)
    obtain ⟨hnextNone, hbackNone⟩ := h.cleared other hlisted hfree
    exact ⟨hnext'.trans hnextNone, hback'.trans hbackNone⟩

/-- A push keeps the invariant. -/
theorem SlabLists.Inv.push (h : s.Inv) (hfree : ∀ head, slab ∉ s.lists head) (head : H) :
    ∃ s', slabListStep s (.push head slab) = some s' ∧ s'.Inv := by
  refine ⟨_, rfl, h.linked.push h.separate hfree, h.separate.cons hfree head,
    fun other hlisted hnone => ?_⟩
  have hother : other ≠ slab := by
    rintro rfl
    apply hnone head
    simp [SlabListCall.apply]
  have hfree' (tag : H) : other ∉ s.lists tag := by
    intro hmem
    apply hnone tag
    by_cases htag : tag = head
    · subst htag
      simp [SlabListCall.apply, hmem]
    · simpa [SlabListCall.apply, htag] using hmem
  obtain ⟨hnext, hprev⟩ := h.linked.push_frame (hfree' head) hother
  obtain ⟨hnextNone, hprevNone⟩ := h.cleared other
    ((List.mem_cons.mp hlisted).resolve_left hother) hfree'
  exact ⟨hnext.trans hnextNone, hprev.trans hprevNone⟩

/-- A pop returns the first slab of the list and keeps the invariant. -/
theorem SlabLists.Inv.pop (h : s.Inv) (head : H) :
    s.Confined (.pop head) ∧ ∃ s', slabListStep s (.pop head) = some s' ∧ s'.Inv := by
  cases hlist : s.lists head with
  | nil =>
    have hpop : slabListPop s.links head = none := h.linked.pop_nil hlist
    have hsame : SlabListCall.apply s.lists (.pop head) = s.lists := by
      rw [SlabListCall.apply, hlist, List.tail_nil, ← hlist, Function.update_eq_self]
    have hstep : slabListStep s (.pop head) = some s := by simp only [slabListStep, hpop, hsame]
    exact ⟨by simp [SlabLists.Confined, hpop, hlist], s, hstep, h⟩
  | cons slab rest =>
    obtain ⟨hpop, hprev⟩ := h.linked.pop_cons hlist
    have hpop' : slabListPop s.links head = some (slab, s.links.unlink (.head head) slab) := hpop
    have hslab : slab ∈ s.lists head := by simp [hlist]
    have htail : SlabListCall.apply s.lists (.pop head) =
        Function.update s.lists head ((s.lists head).erase slab) := by
          simp [SlabListCall.apply, hlist]
    have hstep : slabListStep s (.pop head) = some ⟨s.links.unlink (.head head) slab,
        Function.update s.lists head ((s.lists head).erase slab), s.listed⟩ := by
      simp only [slabListStep, hpop', htail]
    exact ⟨by simp [SlabLists.Confined, hpop', hlist], _, hstep, h.unlink hslab hprev⟩

/-- A removal is confined to the list of the slab and keeps the invariant. -/
theorem SlabLists.Inv.remove (h : s.Inv) (hslab : slab ∈ s.lists head) :
    s.Confined (.remove slab) ∧ ∃ s', slabListStep s (.remove slab) = some s' ∧ s'.Inv := by
  obtain ⟨cell, hprev⟩ := Option.ne_none_iff_exists'.mp ((h.linked head).prev_ne_none hslab)
  have hremove : slabListRemove s.links slab = some (s.links.unlink cell slab) :=
    Links.remove_eq hprev
  have hinv := h.unlink hslab hprev
  constructor
  · intro head' hslab'
    obtain rfl := h.separate.unique hslab hslab'
    refine ⟨_, hremove, fun other hother => ⟨h.linked.unlink_head hslab hprev hother, ?_⟩,
      fun other hother => h.linked.unlink_frame hslab hprev hother⟩
    have hchain := hinv.refines.sequence other
    dsimp only at hchain
    rwa [Function.update_of_ne hother] at hchain
  · have herase : SlabListCall.apply s.lists (.remove slab) =
        Function.update s.lists head ((s.lists head).erase slab) := h.separate.erase_eq hslab
    have hstep : slabListStep s (.remove slab) = some ⟨s.links.unlink cell slab,
        Function.update s.lists head ((s.lists head).erase slab), s.listed⟩ := by
      simp only [slabListStep, hremove, herase]
    exact ⟨_, hstep, hinv⟩

/-- Every admitted call is confined, is carried out, and keeps the invariant. -/
theorem SlabLists.Inv.step (h : s.Inv) {call : SlabListCall H} (hcall : s.Admits call) :
    s.Confined call ∧ ∃ s', slabListStep s call = some s' ∧ s'.Inv := by
  cases call with
  | push head slab => exact ⟨trivial, h.push hcall head⟩
  | pop head => exact h.pop head
  | remove slab =>
    obtain ⟨head, hslab⟩ := hcall
    exact h.remove hslab

/-- After any admitted calls the links spell out the ordinary lists the same calls make, and each
call was confined. -/
theorem slabList_refines {nextLink : ℕ → Option ℕ} {prevLink : ℕ → Option (Cell ℕ H)}
    {calls : List (SlabListCall H)}
    (hcalls : Meets slabListStep SlabLists.Admits (.new nextLink prevLink) calls) :
    (∃ s, run slabListStep (.new nextLink prevLink) calls = some s ∧ s.Refines) ∧
      Meets slabListStep SlabLists.Confined (.new nextLink prevLink) calls := by
  have hinv := SlabLists.inv_new nextLink prevLink
  obtain ⟨s, hrun, hs⟩ := exists_run_of_meets (fun _ _ h hcall => (h.step hcall).2) hinv hcalls
  have hboth : Meets slabListStep (fun s call => s.Admits call ∧ s.Confined call)
      (.new nextLink prevLink) calls := by
    apply hcalls.mono_of_invariant (I := SlabLists.Inv)
      (fun s call h hcall => ⟨hcall, (h.step hcall).1⟩) _ hinv
    intro s call s' h hcall hs'
    obtain ⟨t, ht, hkept⟩ := (h.step hcall.1).2
    rw [hs', Option.some.injEq] at ht
    exact ht ▸ hkept
  exact ⟨⟨s, hrun, hs.refines⟩, hboth.mono fun _ _ h => h.2⟩

end Run

/-- Two lists, with a removal from the middle, a pop and a slab that moves to the other list. -/
theorem slabList_refines_twoHeads :
    ∃ s, run slabListStep (.new (fun _ => none) fun _ => none)
      [.push (0 : Fin 2) 0x10000, .push 0 0x20000, .push 0 0x30000, .remove 0x20000,
        .push 1 0x20000, .pop 0] = some s ∧
        s.Refines :=
  (slabList_refines (by decide)).1

section Heap

variable {s : HeapSys} {live : List Allocation} {lists : SlabPlace → List ℕ}
  {roster handles : List ℕ} {busy : Option ℕ}

/-- A heap's push is the push of the list. -/
theorem HeapSys.slabListPush_eq (s : HeapSys) (head : QueueHead) (slab : ℕ) :
    s.slabListPush head slab = { s with links := ClMalloc.slabListPush s.links head slab } := rfl

/-- A heap's pop is the pop of the list. -/
theorem HeapSys.slabListPop_eq (s : HeapSys) (head : QueueHead) :
    s.slabListPop head = (ClMalloc.slabListPop s.links head).map fun r =>
      (r.1, { s with links := r.2 }) := by
  unfold HeapSys.slabListPop ClMalloc.slabListPop
  cases s.links.pop head <;> rfl

/-- A heap's removal is the removal from the list. -/
theorem HeapSys.slabListRemove_eq (s : HeapSys) (slab : ℕ) :
    (s.slabListRemove slab).toOption =
      (ClMalloc.slabListRemove s.links slab).map fun links => { s with links := links } := by
  unfold HeapSys.slabListRemove ClMalloc.slabListRemove
  cases s.links.remove slab <;> rfl

/-- The links of the heaps spell out their queues, and an active slab, taken out of its list, has
none. -/
theorem HeapInv.slabLists_refine (hinv : HeapInv s live lists roster handles busy) (h c : ℕ) :
    SlabLists.Refines ⟨s.links, fun head => lists (.queue head), lists (.bin h c)⟩ := by
  apply SlabLists.Inv.refines
  exact ⟨hinv.linked, hinv.queues_separate, fun slab hslab _ => hinv.binLinks h c slab hslab⟩

end Heap

end ClMalloc
