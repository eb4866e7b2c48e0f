import ClMalloc.Lib.Cursor
import ClMalloc.Lib.Transition
import ClMalloc.PoolChecked

/-!
# Free lists threaded through their pages

A `PageFreeList` is a pointer to its first page and a length; each free page stores the
pointer to the next one in its first word. `remove_if` walks by a cursor at the head or at
the first word of a page it kept. On every well-formed list it ends with the pages it was to
keep, in order, and writes no page outside the list. The lists of pages that the sections of
the pool work on are what the pointers spell out.
-/

namespace ClMalloc

open Checked Intrusive Transition

/-- The first words of the pages. -/
abbrev PageLinks := ℕ → Option ℕ

/-- `PageFreeList`, with the pointer it stores. -/
structure LinkedFreeList where
  head : Option ℕ
  len : ℕ
  deriving DecidableEq

/-- `PageFreeList::EMPTY`. -/
def LinkedFreeList.empty : LinkedFreeList := ⟨none, 0⟩

/-- `push`. -/
def LinkedFreeList.push (l : LinkedFreeList) (links : PageLinks) (slab : ℕ) :
    Option (LinkedFreeList × PageLinks) := do
  let links := Function.update links slab l.head
  let len ← add wordLimit l.len 1
  some (⟨some slab, len⟩, links)

/-- `pop`. -/
def LinkedFreeList.pop (l : LinkedFreeList) (links : PageLinks) :
    Option (Option (ℕ × LinkedFreeList)) :=
  match l.head with
  | none => some none
  | some slab => do
    let len ← sub l.len 1
    some (some (slab, ⟨links slab, len⟩))

/-- The loop of `remove_if`, for at most `fuel` rounds. -/
def removeIfLoop (pred : ℕ → Bool) : ℕ → Thread ℕ → ℕ → Cell ℕ Unit → Option (Thread ℕ × ℕ)
  | 0, t, len, cursor => if t.read cursor = none then some (t, len) else none
  | fuel + 1, t, len, cursor =>
    match t.read cursor with
    | none => some (t, len)
    | some slab =>
      if pred slab then do
        let t := t.write cursor (t.next slab)
        let len ← sub len 1
        removeIfLoop pred fuel t len cursor
      else removeIfLoop pred fuel t len (.next slab)

/-- `remove_if`. -/
def LinkedFreeList.removeIf (l : LinkedFreeList) (links : PageLinks) (pred : ℕ → Bool) (fuel : ℕ) :
    Option (LinkedFreeList × PageLinks) := do
  let (t, len) ← removeIfLoop pred fuel ⟨l.head, links⟩ l.len (.head ())
  some (⟨t.start, len⟩, t.next)

/-- `remove_segment_slabs`, on the two lists. -/
def removeSegmentPages (dirty clean : LinkedFreeList) (links : PageLinks) (segBase fuel : ℕ) :
    Option (LinkedFreeList × LinkedFreeList × PageLinks) := do
  let (dirty, links) ← dirty.removeIf links (inSegment segBase) fuel
  let (clean, links) ← clean.removeIf links (inSegment segBase) fuel
  some (dirty, clean, links)

/-- The links from the head meet these pages, as many as the length says. -/
structure LinkedFreeList.Holds (l : LinkedFreeList) (links : PageLinks) (pages : List ℕ) :
    Prop where
  chain : Chain links l.head pages
  len : l.len = pages.length

section FreeList

variable {l l' : LinkedFreeList} {links links' : PageLinks} {pages : List ℕ} {slab fuel : ℕ}

/-- A list is well formed or not by the words of its own pages. -/
theorem LinkedFreeList.Holds.congr (h : l.Holds links pages)
    (hlinks : ∀ p ∈ pages, links' p = links p) :
    l.Holds links' pages := ⟨h.chain.congr hlinks, h.len⟩

/-- The empty list holds no pages. -/
theorem LinkedFreeList.holds_empty (links : PageLinks) :
    LinkedFreeList.empty.Holds links [] := ⟨rfl, rfl⟩

/-- A push puts the page in front and writes its first word only. -/
theorem LinkedFreeList.Holds.push (h : l.Holds links pages) (hslab : slab ∉ pages)
    (hroom : pages.length + 1 < wordLimit) :
    ∃ l' links', l.push links slab = some (l', links') ∧ l'.Holds links' (slab :: pages) ∧
      ∀ p, p ≠ slab → links' p = links p := by
  have hadd : add wordLimit l.len 1 = some (l.len + 1) := add_eq (by rw [h.len]; exact hroom)
  refine ⟨⟨some slab, l.len + 1⟩, Function.update links slab l.head, ?_,
    ⟨h.chain.push hslab, ?_⟩, ?_⟩
  · simp only [LinkedFreeList.push, hadd, Option.bind_eq_bind, Option.bind_some]
  · rw [List.length_cons, h.len]
  · intro p hp
    exact Function.update_of_ne hp _ _

/-- A pop finds nothing in an empty list. -/
theorem LinkedFreeList.Holds.pop_nil (h : l.Holds links []) : l.pop links = some none := by
  have hhead : l.head = none := h.chain
  simp only [LinkedFreeList.pop, hhead]

/-- A pop takes the first page. -/
theorem LinkedFreeList.Holds.pop_cons (h : l.Holds links (slab :: pages)) :
    ∃ l', l.pop links = some (some (slab, l')) ∧ l'.Holds links pages := by
  have hhead : l.head = some slab := h.chain.1
  have hlen : l.len = pages.length + 1 := h.len
  have hsub : sub l.len 1 = some pages.length := by rw [hlen, sub_eq (by omega), Nat.add_sub_cancel]
  refine ⟨⟨links slab, pages.length⟩, ?_, h.chain.2, rfl⟩
  simp only [LinkedFreeList.pop, hhead, hsub, Option.bind_eq_bind, Option.bind_some]

/-- From a cursor behind the pages kept so far the loop keeps those of the rest that the predicate
does not select. -/
theorem removeIfLoop_eq (pred : ℕ → Bool) {t : Thread ℕ} {kept rest : List ℕ}
    (hspells : t.Spells (kept ++ rest)) (hfuel : rest.length ≤ fuel) :
    ∃ t', removeIfLoop pred fuel t (kept ++ rest).length (holder (.head ()) kept) =
        some (t', (kept ++ rest.filter fun p => !pred p).length) ∧
      t'.Spells (kept ++ rest.filter fun p => !pred p) ∧
      ∀ p, (p ∉ kept ++ rest.filter fun p => !pred p) → t'.next p = t.next p := by
  induction rest generalizing t kept fuel with
  | nil =>
    have hread : t.read (holder (.head ()) kept) = none := hspells.read_holder
    refine ⟨t, ?_, hspells, fun _ _ => rfl⟩
    cases fuel <;> simp [removeIfLoop, hread]
  | cons slab rest ih =>
    have hread : t.read (holder (.head ()) kept) = some slab := hspells.read_holder
    obtain ⟨fuel, rfl⟩ : ∃ k, fuel = k + 1 := ⟨fuel - 1, by simp at hfuel; omega⟩
    have hrest : rest.length ≤ fuel := by simpa using hfuel
    by_cases hpred : pred slab = true
    · -- The cursor stays, and the cell it points at skips the page.
      have hlength : (kept ++ slab :: rest).length = (kept ++ rest).length + 1 := by
        simp only [List.length_append, List.length_cons]
        omega
      have hsub : sub (kept ++ slab :: rest).length 1 = some (kept ++ rest).length := by
        rw [hlength, sub_eq (by omega), Nat.add_sub_cancel]
      obtain ⟨t', hloop, hspells', hframe⟩ := ih hspells.splice hrest
      have hfilter : (slab :: rest).filter (fun p => !pred p) = rest.filter fun p => !pred p := by
        simp [hpred]
      rw [hfilter]
      refine ⟨t', ?_, hspells', fun p hp => ?_⟩
      · simp only [removeIfLoop, hread, if_pos hpred, hsub, Option.bind_eq_bind, Option.bind_some]
        exact hloop
      · have hkept : p ∉ kept := fun hin => hp (List.mem_append_left _ hin)
        rw [hframe p hp, Thread.write_holder_next _ _ hkept]
    · -- The cursor moves on to the first word of the page.
      have hsplit : kept ++ slab :: rest = kept ++ [slab] ++ rest := by simp
      have hfilter : kept ++ (slab :: rest).filter (fun p => !pred p) =
          kept ++ [slab] ++ rest.filter fun p => !pred p := by
        simp [hpred]
      rw [hsplit] at hspells ⊢
      obtain ⟨t', hloop, hspells', hframe⟩ := ih hspells hrest
      rw [hfilter]
      refine ⟨t', ?_, hspells', hframe⟩
      simp only [removeIfLoop, hread, if_neg hpred]
      rw [holder_append] at hloop
      exact hloop

/-- `remove_if` ends on every well-formed list with the pages not selected, and writes to these
only. -/
theorem LinkedFreeList.Holds.removeIf (h : l.Holds links pages) (pred : ℕ → Bool)
    (hfuel : pages.length ≤ fuel) :
    ∃ l' links', l.removeIf links pred fuel = some (l', links') ∧
      l'.Holds links' (pages.filter fun p => !pred p) ∧
      ∀ p, (p ∉ pages.filter fun p => !pred p) → links' p = links p := by
  have hspells : Thread.Spells ⟨l.head, links⟩ ([] ++ pages) := h.chain
  obtain ⟨t, hloop, hspells', hframe⟩ := removeIfLoop_eq pred hspells hfuel
  have hrun : l.removeIf links pred fuel =
      some (⟨t.start, (pages.filter fun p => !pred p).length⟩, t.next) := by
    rw [LinkedFreeList.removeIf, h.len]
    simp only [List.nil_append, holder] at hloop
    simp only [hloop, Option.bind_eq_bind, Option.bind_some]
  exact ⟨_, _, hrun, ⟨hspells', rfl⟩, hframe⟩

/-- What is not in a list is not in what a filter leaves of it. -/
theorem notMem_filter {p : ℕ} (hp : p ∉ pages) (keep : ℕ → Bool) : p ∉ pages.filter keep :=
  fun hin => hp (List.mem_of_mem_filter hin)

variable {dirty clean : LinkedFreeList} {dirtyPages cleanPages : List ℕ}

/-- `remove_segment_slabs` leaves on either list the pages outside the segment, and writes to these
only. -/
theorem removeSegmentPages_holds (hdirty : dirty.Holds links dirtyPages)
    (hclean : clean.Holds links cleanPages) (hapart : dirtyPages.Disjoint cleanPages) (segBase : ℕ)
    (hdirtyFuel : dirtyPages.length ≤ fuel) (hcleanFuel : cleanPages.length ≤ fuel) :
    ∃ dirty' clean' links', removeSegmentPages dirty clean links segBase fuel =
      some (dirty', clean', links') ∧
      dirty'.Holds links' (dirtyPages.filter fun p => !inSegment segBase p) ∧
      clean'.Holds links' (cleanPages.filter fun p => !inSegment segBase p) ∧
      ∀ p, p ∉ dirtyPages → p ∉ cleanPages → links' p = links p := by
  obtain ⟨dirty', links₁, hrun₁, hdirty', hframe₁⟩ := hdirty.removeIf (inSegment segBase) hdirtyFuel
  have hclean₁ : clean.Holds links₁ cleanPages :=
    hclean.congr fun p hp => hframe₁ p (notMem_filter (fun hin => hapart hin hp) _)
  obtain ⟨clean', links', hrun, hclean', hframe⟩ := hclean₁.removeIf (inSegment segBase) hcleanFuel
  have hdirty'' : dirty'.Holds links' (dirtyPages.filter fun p => !inSegment segBase p) :=
    hdirty'.congr fun p hp => hframe p
      (notMem_filter (fun hin => hapart (List.mem_of_mem_filter hp) hin) _)
  refine ⟨dirty', clean', links', ?_, hdirty'', hclean', fun p hd hc => ?_⟩
  · simp only [removeSegmentPages, hrun₁, hrun, Option.bind_eq_bind, Option.bind_some]
  · rw [hframe p (notMem_filter hc _), hframe₁ p (notMem_filter hd _)]

end FreeList

/-- `remove_if` ends on every well-formed list with the pages that are not selected, in their order,
counts them, and writes no page outside the list; so `remove_segment_slabs` leaves the pages outside
the segment on both lists. -/
theorem pageFreeList_removeIf :
    (∀ (l : LinkedFreeList) (links : PageLinks) (pages : List ℕ) (pred : ℕ → Bool),
      l.Holds links pages →
      ∀ fuel, pages.length ≤ fuel → ∃ l' links', l.removeIf links pred fuel = some (l', links') ∧
        l'.Holds links' (pages.filter fun p => !pred p) ∧ ∀ p, p ∉ pages → links' p = links p) ∧
    ∀ (dirty clean : LinkedFreeList) (links : PageLinks) (dirtyPages cleanPages : List ℕ)
      (segBase : ℕ),
      dirty.Holds links dirtyPages → clean.Holds links cleanPages → dirtyPages.Disjoint cleanPages →
      ∀ fuel, dirtyPages.length ≤ fuel → cleanPages.length ≤ fuel →
        ∃ dirty' clean' links', removeSegmentPages dirty clean links segBase fuel =
          some (dirty', clean', links') ∧
          dirty'.Holds links' (dirtyPages.filter fun p => !inSegment segBase p) ∧
          clean'.Holds links' (cleanPages.filter fun p => !inSegment segBase p) ∧
          ∀ p, p ∉ dirtyPages → p ∉ cleanPages → links' p = links p := by
  constructor
  · intro l links pages pred h fuel hfuel
    obtain ⟨l', links', hrun, hholds, hframe⟩ := h.removeIf pred hfuel
    exact ⟨l', links', hrun, hholds, fun p hp => hframe p (notMem_filter hp _)⟩
  · intro dirty clean links dirtyPages cleanPages segBase hdirty hclean hapart fuel
      hdirtyFuel hcleanFuel
    exact removeSegmentPages_holds hdirty hclean hapart segBase hdirtyFuel hcleanFuel

/-- Two lists whose pages of two segments alternate: the dirty one from `0x210000`, the clean one
from `0x410000`. -/
def alternatingLinks : PageLinks := fun p =>
  if p = 0x210000 then some 0x220000
  else if p = 0x220000 then some 0x400000
  else if p = 0x400000 then some 0x230000
  else if p = 0x410000 then some 0x240000
  else none

/-- Pages of the released segment go from the front, in a row, and from the back. -/
theorem pageFreeList_removeIf_alternating :
    (∃ l links, (LinkedFreeList.mk (some 0x210000) 4).removeIf alternatingLinks
      (inSegment 0x200000) 4 =
      some (l, links) ∧ l.Holds links [0x400000]) ∧
    ∃ dirty clean links, removeSegmentPages ⟨some 0x210000, 4⟩ ⟨some 0x410000,
      2⟩ alternatingLinks 0x200000 4 =
      some (dirty, clean, links) ∧ dirty.Holds links [0x400000] ∧ clean.Holds links [0x410000] := by
  have hdirty : (LinkedFreeList.mk (some 0x210000) 4).Holds alternatingLinks [0x210000, 0x220000,
      0x400000, 0x230000] :=
    ⟨⟨rfl, rfl, rfl, rfl, rfl⟩, rfl⟩
  have hclean : (LinkedFreeList.mk (some 0x410000) 2).Holds alternatingLinks [0x410000, 0x240000] :=
    ⟨⟨rfl, rfl, rfl⟩, rfl⟩
  have hdirtyKept : [0x210000, 0x220000, 0x400000,
      0x230000].filter (fun p => !inSegment 0x200000 p) = [0x400000] := by
    decide
  have hcleanKept : [0x410000, 0x240000].filter (fun p => !inSegment 0x200000 p) = [0x410000] := by
    decide
  obtain ⟨l, links, hrun, hl, -⟩ := pageFreeList_removeIf.1 _ _ _ (inSegment 0x200000) hdirty 4
    (by decide)
  obtain ⟨dirty, clean, links', hrun', hd, hc, -⟩ :=
    pageFreeList_removeIf.2 _ _ _ _ _ 0x200000 hdirty hclean (by simp) 4 (by decide) (by decide)
  rw [hdirtyKept] at hl hd
  rw [hcleanKept] at hc
  exact ⟨⟨l, links, hrun, hl⟩, dirty, clean, links', hrun', hd, hc⟩

/-- The pointers spell out the list of pages, and the lengths agree with it. -/
structure LinkedFreeList.Represents (l : LinkedFreeList) (links : PageLinks)
    (pages : PageFreeList) : Prop where
  holds : l.Holds links pages.pages
  len : pages.len = pages.pages.length

section Represents

variable {l : LinkedFreeList} {links : PageLinks} {pages : PageFreeList} {slab fuel : ℕ}

/-- `push` on the pointers is `push` on the pages. -/
theorem LinkedFreeList.Represents.push (h : l.Represents links pages) (hslab : slab ∉ pages.pages)
    (hroom : pages.pages.length + 1 < wordLimit) :
    ∃ l' links', l.push links slab = some (l', links') ∧
      l'.Represents links' (pages.push slab) := by
  obtain ⟨l', links', hrun, hholds, -⟩ := h.holds.push hslab hroom
  refine ⟨l', links', hrun, hholds, ?_⟩
  simp only [PageFreeList.push, List.length_cons, h.len]

/-- `pop` on the pointers is `pop` on the pages. -/
theorem LinkedFreeList.Represents.pop (h : l.Represents links pages) :
    match pages.pop with
    | none => l.pop links = some none
    | some (slab, rest) =>
      ∃ l', l.pop links = some (some (slab, l')) ∧ l'.Represents links rest := by
  obtain ⟨hholds, hlen⟩ := h
  unfold PageFreeList.pop
  cases hpages : pages.pages with
  | nil => exact (hpages ▸ hholds).pop_nil
  | cons slab rest =>
    rw [hpages] at hholds hlen
    obtain ⟨l', hrun, hrest⟩ := hholds.pop_cons
    exact ⟨l', hrun, hrest, by simp [hlen]⟩

/-- `remove_if` on the pointers is `removeIf` on the pages. -/
theorem LinkedFreeList.Represents.removeIf (h : l.Represents links pages) (pred : ℕ → Bool)
    (hfuel : pages.pages.length ≤ fuel) :
    ∃ l' links', l.removeIf links pred fuel = some (l', links') ∧
      l'.Represents links' (pages.removeIf pred) := by
  obtain ⟨l', links', hrun, hholds, -⟩ := h.holds.removeIf pred hfuel
  obtain ⟨hpages, hlen⟩ := pages.removeIf_spec pred h.len
  exact ⟨l', links', hrun, hpages ▸ hholds, hlen⟩

/-- Calls on a free list. -/
inductive FreeListCall
  | push (slab : ℕ)
  | pop
  | removeIf (pred : ℕ → Bool)

/-- A free list as pointers and beside it as the list of its pages. -/
structure FreePages where
  list : LinkedFreeList
  links : PageLinks
  pages : PageFreeList

/-- A call pushes pages that are not in the list, which has room for them. -/
def FreePages.Admits (s : FreePages) : FreeListCall → Prop
  | .push slab => slab ∉ s.pages.pages ∧ s.pages.pages.length + 1 < wordLimit
  | .pop | .removeIf _ => True

/-- One call on both; a page popped from one and not from the other has no result. -/
def freeListStep (s : FreePages) : FreeListCall → Option FreePages
  | .push slab => (s.list.push s.links slab).map fun r => ⟨r.1, r.2, s.pages.push slab⟩
  | .pop =>
    match s.list.pop s.links, s.pages.pop with
    | some (some (slab, list)), some (slab', pages) =>
      if slab = slab' then some ⟨list, s.links, pages⟩ else none
    | some none, none => some s
    | _, _ => none
  | .removeIf pred =>
    (s.list.removeIf s.links pred s.list.len).map fun r => ⟨r.1, r.2, s.pages.removeIf pred⟩

/-- An admitted call is carried out on both alike. -/
theorem LinkedFreeList.Represents.step {s : FreePages} (h : s.list.Represents s.links s.pages)
    {call : FreeListCall} (hcall : s.Admits call) :
    ∃ s', freeListStep s call = some s' ∧ s'.list.Represents s'.links s'.pages := by
  cases call with
  | push slab =>
    obtain ⟨l', links', hrun, hrep⟩ := h.push hcall.1 hcall.2
    exact ⟨⟨l', links', s.pages.push slab⟩, by simp only [freeListStep, hrun, Option.map_some],
      hrep⟩
  | pop =>
    have hpop := h.pop
    cases hpages : s.pages.pop with
    | none =>
      simp only [hpages] at hpop
      exact ⟨s, by simp only [freeListStep, hpop, hpages], h⟩
    | some r =>
      simp only [hpages] at hpop
      obtain ⟨l', hrun, hrep⟩ := hpop
      exact ⟨⟨l', s.links, r.2⟩, by simp only [freeListStep, hrun, hpages, if_true], hrep⟩
  | removeIf pred =>
    obtain ⟨l', links', hrun, hrep⟩ := h.removeIf pred h.holds.len.ge
    exact ⟨⟨l', links', s.pages.removeIf pred⟩, by simp only [freeListStep, hrun, Option.map_some],
      hrep⟩

/-- Any calls from the empty list keep the pointers spelling out the list of pages. -/
theorem freeList_refines (links : PageLinks) (calls : List FreeListCall)
    (hcalls : Meets freeListStep FreePages.Admits ⟨.empty, links, .empty⟩ calls) :
    ∃ s, run freeListStep ⟨.empty, links, .empty⟩ calls = some s ∧
      s.list.Represents s.links s.pages :=
  exists_run_of_meets (I := fun s => s.list.Represents s.links s.pages)
    (fun _ _ h hcall => h.step hcall) ⟨LinkedFreeList.holds_empty links, rfl⟩ hcalls

/-- In a pool the pointers of both lists follow `removeSegmentSlabs`. -/
theorem PoolInv.removeSegmentSlabs_linked {T : Type} {st : PoolState} {kind : ℕ → PageKind T}
    (h : PoolInv st kind) {dirty clean : LinkedFreeList}
    (hdirty : dirty.Represents links st.dirtyList) (hclean : clean.Represents links st.cleanList)
    (segBase : ℕ) (hdirtyFuel : st.dirtyList.pages.length ≤ fuel)
    (hcleanFuel : st.cleanList.pages.length ≤ fuel) :
    ∃ dirty' clean' links', removeSegmentPages dirty clean links segBase fuel =
      some (dirty', clean', links') ∧
      dirty'.Represents links' (removeSegmentSlabs st segBase).dirtyList ∧
      clean'.Represents links' (removeSegmentSlabs st segBase).cleanList := by
  have hapart : st.dirtyList.pages.Disjoint st.cleanList.pages := by
    intro p hd hc
    have hkind := (h.dirty p).mp hd
    rw [(h.clean p).mp hc] at hkind
    cases hkind
  obtain ⟨dirty', clean', links', hrun, hd, hc, -⟩ :=
    removeSegmentPages_holds hdirty.holds hclean.holds hapart segBase hdirtyFuel hcleanFuel
  obtain ⟨hdirtyPages, hdirtyLen⟩ := st.dirtyList.removeIf_spec (inSegment segBase) hdirty.len
  obtain ⟨hcleanPages, hcleanLen⟩ := st.cleanList.removeIf_spec (inSegment segBase) hclean.len
  exact ⟨dirty', clean', links', hrun, ⟨hdirtyPages ▸ hd, hdirtyLen⟩, ⟨hcleanPages ▸ hc, hcleanLen⟩⟩

end Represents

end ClMalloc
