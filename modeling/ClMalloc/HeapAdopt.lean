import ClMalloc.HeapScan

/-!
# Allocating from a slab, and adopting abandoned slabs

A slab hands out a slot that no live allocation is in. `try_adopt` takes all abandoned slabs
of a class: fully free ones are returned to the pool, the first with a slot serves the
request and becomes the active slab, the others are queued by what they have available.
-/

namespace ClMalloc

open Intrusive Placement Transition

variable {s s' : HeapSys} {live : List Allocation} {lists : SlabPlace → List ℕ}
  {roster handles : List ℕ} {busy : Option ℕ} {h c slab ptr : ℕ} {layout : Layout}
  {result : Option ℕ}

/-- The live allocations with the one being returned. -/
def withResult (result : Option ℕ) (layout : Layout) (live : List Allocation) : List Allocation :=
  (result.map fun ptr => ⟨ptr, layout⟩).toList ++ live

/-- Nothing is returned yet. -/
@[simp] theorem withResult_none (layout : Layout) (live : List Allocation) :
    withResult none layout live = live := rfl

/-- The returned pointer is live. -/
@[simp] theorem withResult_some (ptr : ℕ) (layout : Layout) (live : List Allocation) :
    withResult (some ptr) layout live = ⟨ptr, layout⟩ :: live := rfl

/-- A slot handed out by a slab is at no live address. -/
theorem HeapInv.slot_fresh (hinv : HeapInv s live lists roster handles busy)
    (hslab : s.pool.Held slab)
    (hslot : ptr ∈ slabSlots slab (classSize (s.headers slab).sizeClassIndex))
    (hfresh : ∀ a ∈ live, a.ServedFrom slab → a.ptr ≠ ptr) : ptr ∉ live.map Allocation.ptr := by
  intro hin
  obtain ⟨a, ha, rfl⟩ := List.mem_map.mp hin
  obtain ⟨i, -, -, hlow, hhigh, hmask⟩ := slot_geometry (hinv.quiet.aligned hslab).1 hslot
  obtain ⟨hsize, hplace⟩ := hinv.serves a ha
  cases hclass : classIndex a.layout with
  | none =>
    rw [hclass] at hplace
    have hmin := (slab_geometry (s.headers slab).sizeClassIndex).1
    rcases hinv.quiet.page_apart hslab hplace.1 with happart | happart <;> omega
  | some idx => exact hfresh a ha ⟨by simp [hclass], hmask⟩ rfl

/-- `Slab::alloc` hands out a slot for a layout of the slab's class, or has none available. -/
theorem HeapInv.slabAlloc (hinv : HeapInv s live lists roster handles busy)
    (hbusy : busy = none ∨ busy = some slab) (hslab : s.pool.Held slab)
    (hlayout : classIndex layout = some (s.headers slab).sizeClassIndex) (hsize : 1 ≤ layout.size) :
    (s.slabAlloc slab = (s, none) ∧ (s.headers slab).freeCount = 0) ∨
      ∃ ptr list cursor remaining, s.slabAlloc slab = (s.setHeader slab
          { s.headers slab with
            localList := list, bumpCursor := cursor, bumpRemaining := remaining }, some ptr) ∧
        HeapInv (s.setHeader slab
          { s.headers slab with
            localList := list, bumpCursor := cursor, bumpRemaining := remaining })
          (⟨ptr, layout⟩ :: live) lists roster handles (some slab) ∧
          0 < (s.headers slab).freeCount := by
  have hok := hinv.slabs slab hslab
  cases halloc : (s.headers slab).alloc s.next slab with
  | none => exact .inl ⟨by simp [HeapSys.slabAlloc, halloc], hok.alloc_eq_none.mp halloc⟩
  | some result =>
    obtain ⟨ptr, header⟩ := result
    obtain ⟨hok', hslot, hfresh, hcount⟩ := hok.alloc halloc layout
    obtain ⟨list, cursor, remaining, rfl⟩ := SlabHeader.alloc_frame halloc
    obtain ⟨i, -, -, -, -, hmask⟩ := slot_geometry (hinv.quiet.aligned hslab).1 hslot
    refine .inr ⟨ptr, list, cursor, remaining, by simp [HeapSys.slabAlloc, halloc], ?_, by omega⟩
    refine hinv.content hslab hbusy rfl (.inl rfl) hok' (fun _ _ => rfl)
      (fun a ha hne => ?_) (fun a ha => ?_)
      (List.nodup_cons.mpr ⟨hinv.slot_fresh hslab hslot hfresh, hinv.liveOnce⟩)
    · rcases List.mem_cons.mp ha with rfl | hin
      · exact absurd hmask hne
      · exact hin
    · rcases List.mem_cons.mp ha with rfl | hin
      · refine ⟨hsize, ?_⟩
        rw [hlayout]
        change s.pool.Held (slabMask ptr) ∧ (s.headers (slabMask ptr)).sizeClassIndex = _
        rw [hmask]
        exact ⟨hslab, rfl⟩
      · exact hinv.serves a hin

/-- The heap took over a slab: it wrote its id, cleared the links, moved the remote stack, and
counted. -/
structure HeapSys.TakenOver (h c : ℕ) (s s' : HeapSys) (slab : ℕ) : Prop where
  merged : s.Merged s' slab
  others : ∀ p, p ≠ slab → s.SameSlab s' p ∧ s'.links.next p = s.links.next p
  cleared : s'.links.next slab = none ∧ s'.links.prev slab = none
  id : (s'.headers slab).heapId = (s.heap h).id
  pool : s'.pool = s.pool.incAdoptCount c
  heap : s'.heap = s.heap

/-- An adopted slab is taken over. -/
theorem HeapInv.takeOver (hinv : HeapInv s live lists roster handles none)
    (hslab : slab ∈ lists .hand) (hclass : (s.headers slab).sizeClassIndex = c) (hheap : h ∈ roster)
    (hrange : c < numClasses) :
    ∃ s', s.takeOver h c slab = .ok s' ∧ HeapInv s' live lists roster handles none ∧
      s'.Belongs roster h c slab ∧ s.TakenOver h c s' slab := by
  have hclaimed := hinv.claim hslab h
  have hheader : (s.claim h slab).headers slab = { s.headers slab with
      heapId := (s.heap h).id } := by
    simp [HeapSys.claim]
  obtain ⟨s₁, hdrain, hdrained, hdrains⟩ := hclaimed.drains (hclaimed.held hslab)
  have hsettled := (hdrained.settle_of_notMem (hinv.notMem_queue hslab)).incAdoptCount c
  have hid : (s₁.headers slab).heapId = (s.heap h).id := by rw [hdrains.id, hheader]
  have hheap₁ : s₁.heap = s.heap := hdrains.heap
  have hlinks : s₁.links = (s.claim h slab).links := hdrains.links
  have hmerged : s.Merged s₁ slab := by
    obtain ⟨hdrainedHeader, hslots, hcount, hwords⟩ := hdrains.merged
    rw [hheader] at hdrainedHeader hslots hwords
    refine ⟨hdrainedHeader, hslots, ?_, hwords⟩
    rw [hcount, HeapSys.freeTotal, hheader]
    rfl
  have hclassIdx : (s₁.headers slab).sizeClassIndex = c := by
    obtain ⟨id, list, hlist⟩ := hmerged.header
    rw [hlist]
    exact hclass
  refine ⟨_, by simp only [HeapSys.takeOver, hdrain, bind, Except.bind], hsettled, ?_, ?_⟩
  · exact ⟨hheap, hrange, hclassIdx, by rw [hheap₁]; exact hid⟩
  · refine ⟨⟨hmerged.header, hmerged.slots, hmerged.count, hmerged.words⟩, fun p hp => ?_,
      ?_, hid, ?_, hheap₁⟩
    · have hsame := hdrains.others p hp
      refine ⟨⟨hsame.header.trans (by simp [HeapSys.claim, hp]), hsame.words⟩, ?_⟩
      change s₁.links.next p = s.links.next p
      rw [hlinks]
      simp [HeapSys.claim, Links.setNext, Links.setPrev, Links.write, hp]
    · change s₁.links.next slab = none ∧ s₁.links.prev slab = none
      rw [hlinks]
      exact s.claim_links h slab
    · change s₁.pool.incAdoptCount c = _
      rw [hdrains.pool]
      rfl

/-- Count an adoption, and return the slab to the pool if it is fully free. -/
def PagePool.readopt (c : ℕ) (pool : PagePool) (slab : ℕ × Bool) : Option PagePool :=
  (pool.incAdoptCount c).recycle slab

/-- The slab was drained and then handed out a slot. -/
def HeapSys.Supplied (s s' : HeapSys) (slab ptr : ℕ) : Prop :=
  ∃ s₁, s.Merged s₁ slab ∧ (s₁.headers slab).alloc s₁.next slab = some (ptr, s'.headers slab) ∧
    ∀ p, slabMask p = slab → s'.next p = s₁.next p

/-- Which of the slabs seen supplied the result: the first that is partly free, unless there is a
result already. -/
inductive Handed (s s' : HeapSys) (seen : List ℕ) : List ℕ → Option ℕ → Option ℕ → Prop
  | kept {result : Option ℕ} (hkept : result ≠ none ∨ seen.filter s.partFree = []) :
      Handed s s' seen [] result result
  | supplied {slab ptr : ℕ} (hfirst : (seen.filter s.partFree).head? = some slab)
      (hslot : s.Supplied s' slab ptr) :
      Handed s s' seen [slab] none (some ptr)

/-- What `try_adopt` does with the slabs `seen`. -/
structure AdoptResult (h c : ℕ) (live : List Allocation) (s s' : HeapSys)
    (lists lists' : SlabPlace → List ℕ) (seen used : List ℕ) (result result' : Option ℕ) :
    Prop where
  sweep : Sweep (PagePool.readopt c) live s s' seen used
  filed : Filed h c s lists lists' seen
  full : lists' (.queue ⟨h, .full, c⟩) = (seen.filter s.noneFree).reverse ++ lists
    (.queue ⟨h, .full, c⟩)
  owned : ∀ p ∈ seen, (s'.headers p).heapId = (s.heap h).id
  handed : Handed s s' seen used result result'

variable {s₁ : HeapSys} {lists₁ lists' : SlabPlace → List ℕ} {seen used used' : List ℕ}
  {result₁ result' : Option ℕ}

/-- Without a slab nothing is adopted. -/
theorem AdoptResult.nil (hbin : (lists (.bin h c)).length ≤ 1) :
    AdoptResult h c live s s lists lists [] [] result result where
  sweep := .nil
  filed := .nil hbin
  full := by simp
  owned := by simp
  handed := .kept (.inr rfl)

/-- A slab that stays the same before it supplies. -/
theorem HeapInv.supplied_of_same (hinv : HeapInv s live lists roster handles busy)
    (hslab : s.pool.Held slab) (hsame : s.SameSlab s₁ slab) (hslot : s₁.Supplied s' slab ptr) :
    s.Supplied s' slab ptr := by
  obtain ⟨s₂, hmerged, halloc, hwords⟩ := hslot
  exact ⟨s₂, hinv.merged_of_same hslab hsame hmerged, halloc, hwords⟩

/-- A slab that stays the same after it supplied. -/
theorem HeapSys.Supplied.of_same (hslot : s.Supplied s₁ slab ptr) (hsame : s₁.SameSlab s' slab) :
    s.Supplied s' slab ptr := by
  obtain ⟨s₂, hmerged, halloc, hwords⟩ := hslot
  refine ⟨s₂, hmerged, by rw [hsame.header]; exact halloc, fun p hp => ?_⟩
  rw [hsame.words p hp, hwords p hp]

/-- The first slab is handed to the request if it can serve it, then the others. -/
theorem Handed.cons (hinv : HeapInv s live lists roster handles busy)
    (hheld : ∀ p ∈ slab :: seen, s.pool.Held p) (hslab : slab ∉ seen)
    (hsame : ∀ p, p ∉ [slab] → s.SameSlab s₁ p) (hafter : s₁.SameSlab s' slab)
    (hfirst : Handed s s₁ [slab] used result result₁)
    (hrest : Handed s₁ s' seen used' result₁ result') :
    Handed s s' (slab :: seen) (used ++ used') result result' := by
  have hbefore {p : ℕ} (hp : p ∈ seen) : s.SameSlab s₁ p := by
    refine hsame p ?_
    rw [List.mem_singleton]
    rintro rfl
    exact hslab hp
  have hpart : seen.filter s₁.partFree = seen.filter s.partFree := List.filter_congr fun p hp =>
    (hinv.kinds_eq (hheld p (List.mem_cons_of_mem _ hp)) (hbefore hp)).2.2
  have hsplit : (slab :: seen).filter s.partFree =
      [slab].filter s.partFree ++ seen.filter s.partFree := by
    rw [← List.filter_append, List.singleton_append]
  cases hfirst with
  | kept hkept =>
    cases hrest with
    | kept hkept' =>
      refine .kept ?_
      rw [hsplit, ← hpart]
      rcases hkept with hsome | hnil
      · exact .inl hsome
      · rcases hkept' with hsome | hnil'
        · exact .inl hsome
        · exact .inr (by rw [hnil, hnil']; rfl)
    | supplied hhead hslot =>
      rename_i p ptr
      have hnil : [slab].filter s.partFree = [] := hkept.resolve_left fun hne => hne rfl
      have hp : p ∈ seen := List.mem_of_mem_filter (List.mem_of_head? hhead)
      refine .supplied (by rw [hsplit, hnil, ← hpart]; exact hhead) ?_
      exact hinv.supplied_of_same (hheld p (List.mem_cons_of_mem _ hp)) (hbefore hp) hslot
  | supplied hhead hslot =>
    rename_i p ptr
    have hp : p = slab := List.mem_singleton.mp (List.mem_of_mem_filter (List.mem_of_head? hhead))
    subst hp
    cases hrest with
    | kept => exact .supplied (by rw [hsplit, List.head?_append, hhead]; rfl) (hslot.of_same hafter)

/-- One slab is adopted, then the others. -/
theorem AdoptResult.cons {live₀ : List Allocation}
    (hinv : HeapInv s live₀ lists roster handles busy) (hheld : ∀ p ∈ slab :: seen, s.pool.Held p)
    (hslab : slab ∉ seen)
    (hfirst : AdoptResult h c live s s₁ lists lists₁ [slab] used result result₁)
    (hrest : AdoptResult h c live s₁ s' lists₁ lists' seen used' result₁ result') :
    AdoptResult h c live s s' lists lists' (slab :: seen) (used ++ used') result result' := by
  have hapart : [slab].Disjoint seen := List.singleton_disjoint.mpr hslab
  have hkinds {p : ℕ} (hp : p ∈ seen) := hfirst.sweep.kinds_eq hinv hheld hapart hp
  have hafter := hrest.sweep.same slab hslab
  constructor
  case sweep => exact hfirst.sweep.append hinv hheld hapart hrest.sweep
  case filed => exact hfirst.filed.cons (fun p hp => (hkinds hp).2.2) hrest.filed
  case full =>
    have hnone : seen.filter s₁.noneFree = seen.filter s.noneFree :=
      List.filter_congr fun p hp => (hkinds hp).2.1
    rw [hrest.full, hfirst.full, hnone, ← List.append_assoc, ← List.reverse_append,
      ← List.filter_append, List.singleton_append]
  case owned =>
    intro p hp
    rcases List.mem_cons.mp hp with rfl | hp
    · rw [hafter.header]
      exact hfirst.owned p (by simp)
    · rw [hrest.owned p hp]
      exact hfirst.sweep.ids h
  case handed => exact hfirst.handed.cons hinv hheld hslab hfirst.sweep.same hafter hrest.handed

/-- There is a result if and only if there is an active slab, before and after. -/
theorem AdoptResult.bin_iff
    (hadopted : AdoptResult h c live s s' lists lists' seen used result result')
    (hbin : result = none ↔ lists (.bin h c) = []) : result' = none ↔ lists' (.bin h c) = [] := by
  rw [hadopted.filed.active, List.take_eq_nil_iff, List.append_eq_nil_iff]
  cases hadopted.handed with
  | kept hkept =>
    constructor
    · intro hnone
      exact .inr ⟨hbin.mp hnone, hkept.resolve_left fun hne => hne hnone⟩
    · rintro (hone | ⟨hnil, -⟩)
      · simp at hone
      · exact hbin.mpr hnil
  | supplied hfirst =>
    constructor
    · intro hnone
      simp at hnone
    · rintro (hone | ⟨-, hnil⟩)
      · simp at hone
      · simp [hnil] at hfirst

/-- The other slabs in hand keep their forward links when one is queued. -/
theorem HeapInv.push_next_hand (hinv : HeapInv s live lists roster handles busy) (head : QueueHead)
    {p : ℕ} (hp : p ∈ lists .hand) (hne : p ≠ slab) :
    (s.slabListPush head slab).links.next p = s.links.next p :=
  (hinv.linked.push_frame (hinv.notMem_queue hp head) hne).1

/-- What one round of `try_adopt` leaves: one slab fewer in hand, and the slab adopted. -/
structure AdoptRound (h c : ℕ) (layout : Layout) (live : List Allocation) (roster handles : List ℕ)
    (s s' : HeapSys) (lists lists' : SlabPlace → List ℕ) (slab : ℕ) (result result' : Option ℕ) :
    Prop where
  inv : HeapInv s' (withResult result' layout live) lists' roster handles none
  hand : lists' .hand = (lists .hand).erase slab
  links : ∀ p ∈ lists .hand, p ≠ slab → s'.links.next p = s.links.next p
  adopted : ∃ used, AdoptResult h c live s s' lists lists' [slab] used result result'

/-- The live allocations do not include the result. -/
theorem SlabOk.dropResult {next : ℕ → Option ℕ} {page : ℕ} {header : SlabHeader}
    (hok : SlabOk next (withResult result layout live) page header) :
    SlabOk next live page header :=
  hok.congr_live fun _ ha _ => List.mem_append_right _ ha

/-- A fully free adopted slab is returned to the pool. -/
theorem HeapInv.adopt_allFree (hslab : slab ∈ lists .hand) (hbin : (lists (.bin h c)).length ≤ 1)
    (hinv₁ : HeapInv s₁ (withResult result layout live) lists roster handles none)
    (htaken : s.TakenOver h c s₁ slab)
    (hkinds : s.allFree slab = true ∧ s.partFree slab = false ∧ s.noneFree slab = false) :
    ∃ s' lists', s₁.cacheSlab slab = .ok s' ∧
      AdoptRound h c layout live roster handles s s' lists lists' slab result result := by
  obtain ⟨hall, hpart, hnone⟩ := hkinds
  have hfree : (s₁.headers slab).isFullyFree = true := by rw [htaken.merged.kinds.1, hall]
  obtain ⟨pool, hcache, hinv₂⟩ := hinv₁.cacheSlab hslab hfree
  have hpool : PagePool.readopt c s.pool (slab, s.allFree slab) = some pool := by
    rw [hall, PagePool.readopt, ← htaken.pool]
    exact HeapSys.cacheSlab_pool hcache
  refine ⟨_, _, hcache, hinv₂, withHand_hand _, fun p _ hne => (htaken.others p hne).2, [], ?_⟩
  constructor
  case sweep =>
    exact .single htaken.merged (fun p hp => (htaken.others p hp).1) htaken.heap
      (hinv₁.slabs slab (hinv₁.held hslab)).dropResult rfl rfl hpool fun _ => ⟨rfl, rfl⟩
  case filed =>
    refine .skip hbin hpart (withHand_bin _ _ _) (withHand_queue _ _) fun place howned _ => ?_
    obtain ⟨owner, howner⟩ := Option.ne_none_iff_exists'.mp howned
    exact withHand_of_owner _ howner
  case full => simp [hnone]
  case owned => simpa using htaken.id
  case handed => exact .kept (.inr (by simp [hpart]))

/-- An adopted slab that does not serve the request is queued by what it has available. -/
theorem HeapInv.adopt_enqueue (hslab : slab ∈ lists .hand) (hbin : (lists (.bin h c)).length ≤ 1)
    (hinv₁ : HeapInv s₁ (withResult result layout live) lists roster handles none)
    (hbelongs : s₁.Belongs roster h c slab) (htaken : s.TakenOver h c s₁ slab)
    (hall : s.allFree slab = false)
    (hkinds : (s.partFree slab = true ∧ s.noneFree slab = false ∧
      lists (.bin h c) ≠ [] ∧ result ≠ none) ∨ (s.partFree slab = false ∧ s.noneFree slab = true)) :
    ∃ lists', AdoptRound h c layout live roster handles s
      (s₁.enqueue h c slab) lists lists' slab result result := by
  have hfree : (s₁.headers slab).isFullyFree = false := by rw [htaken.merged.kinds.1, hall]
  have hpos := htaken.merged.kinds.2
  have hpool : PagePool.readopt c s.pool (slab, s.allFree slab) = some s₁.pool := by
    rw [hall, PagePool.readopt, ← htaken.pool]
    rfl
  have hsweep (head : QueueHead) : Sweep (PagePool.readopt c) live s
      (s₁.slabListPush head slab) [slab] [] :=
    .single htaken.merged (fun p hp => (htaken.others p hp).1) htaken.heap
      (hinv₁.slabs slab (hinv₁.held hslab)).dropResult rfl rfl hpool fun _ => ⟨rfl, rfl⟩
  have hlinks (head : QueueHead) (p : ℕ) (hp : p ∈ lists .hand) (hne : p ≠ slab) :
      (s₁.slabListPush head slab).links.next p = s.links.next p := by
    rw [hinv₁.push_next_hand head hp hne]
    exact (htaken.others p hne).2
  have howned (head : QueueHead) (p : ℕ) (hp : p ∈ [slab]) :
      ((s₁.slabListPush head slab).headers p).heapId = (s.heap h).id := by
    rw [List.mem_singleton.mp hp]
    exact htaken.id
  unfold HeapSys.enqueue
  rcases hkinds with ⟨hpart, hnone, hactive, hsome⟩ | ⟨hpart, hnone⟩
  · rw [if_pos (hpos.mpr hnone)]
    have hcount := hinv₁.countOk_part (hinv₁.held hslab) hfree (hpos.mpr hnone)
    have hinv₂ := hinv₁.slabListPush ⟨h, .part, c⟩ hslab hbelongs hcount
    refine ⟨_, hinv₂, transfer_src (by simp), hlinks _, [], hsweep _, ?_, ?_, howned _,
      .kept (.inl hsome)⟩
    · exact .promoted hbin hpart (by rw [if_neg hactive]) rfl rfl fun _ _ _ => rfl
    · rw [transfer_of_ne (by simp) (by simp)]
      simp [hnone]
  · have hzero : (s₁.headers slab).freeCount = 0 := by
      rw [htaken.merged.count]
      simpa [HeapSys.noneFree] using hnone
    rw [if_neg (by omega)]
    have hinv₂ := hinv₁.slabListPush ⟨h, .full, c⟩ hslab hbelongs hzero
    refine ⟨_, hinv₂, transfer_src (by simp), hlinks _, [], hsweep _, ?_, ?_, howned _,
      .kept (.inr (by simp [hpart]))⟩
    · refine .skip hbin hpart (transfer_of_ne (by simp) (by simp))
        (transfer_of_ne (by simp) (by simp))
        fun place howned hother => transfer_of_ne ?_ ?_
      · rintro rfl
        exact howned rfl
      · rintro rfl
        exact hother rfl
    · rw [transfer_dst]
      simp [hnone]

/-- The first adopted slab with a slot, but not fully free, serves the request and becomes
active. -/
theorem HeapInv.adopt_serve (hslab : slab ∈ lists .hand) (hbin : lists (.bin h c) = [])
    (hinv₁ : HeapInv s₁ live lists roster handles none) (hbelongs : s₁.Belongs roster h c slab)
    (htaken : s.TakenOver h c s₁ slab) (hlayout : classIndex layout = some c)
    (hsize : 1 ≤ layout.size)
    (hkinds : s.allFree slab = false ∧ s.partFree slab = true ∧ s.noneFree slab = false) :
    ∃ s' ptr lists', s₁.useAdopted h c slab none = (s', some ptr) ∧
      AdoptRound h c layout live roster handles s s' lists lists' slab none (some ptr) := by
  obtain ⟨hall, hpart, hnone⟩ := hkinds
  have hpos := htaken.merged.kinds.2.mpr hnone
  have hclass : classIndex layout = some (s₁.headers slab).sizeClassIndex := by
    rw [hbelongs.classIdx, hlayout]
  rcases hinv₁.slabAlloc (.inl rfl) (hinv₁.held hslab) hclass hsize with
    ⟨-, hzero⟩ | ⟨ptr, list, cursor, remaining, heq, hinv₂, -⟩
  · omega
  · have hempty : (s₁.heap h).bins c = none := by
      have := hinv₁.bins h c
      rw [hbin] at this
      simpa using this.symm
    have hactive := (hinv₂.settle_of_notMem (hinv₁.notMem_queue hslab)).setBin_some (h := h)
      (c := c) hslab hempty
      ⟨hbelongs.heap, hbelongs.range, by simpa [HeapSys.setHeader] using hbelongs.classIdx,
        by simpa [HeapSys.setHeader] using hbelongs.heapId⟩ htaken.cleared
    have hheap (h' : ℕ) : ((s₁.setBin h c (some slab)).heap h').id = (s.heap h').id ∧
        ((s₁.setBin h c (some slab)).heap h').metrics = (s.heap h').metrics := by
      rw [← htaken.heap]
      exact s₁.setBin_same h c (some slab) h'
    have halloc : (s₁.headers slab).alloc s₁.next slab = some (ptr,
        { s₁.headers slab with
          localList := list, bumpCursor := cursor, bumpRemaining := remaining }) := by
      unfold HeapSys.slabAlloc at heq
      split at heq
      case h_1 ptr' header halloc =>
        rw [halloc]
        have hheader := congrFun (congrArg (HeapSys.headers ∘ Prod.fst) heq) slab
        simp only [Prod.mk.injEq, Option.some.injEq] at heq
        simp only [Function.comp_apply, HeapSys.setHeader, Function.update_self] at hheader
        rw [heq.2, hheader]
      case h_2 => simp at heq
    refine ⟨_, ptr, _, by simp only [HeapSys.useAdopted, heq], hactive, transfer_src (by simp),
      fun p _ hne => (htaken.others p hne).2, [slab], ?_⟩
    constructor
    case sweep =>
      refine ⟨?_, by simp, by simp, fun p hp => ?_, fun h' => (hheap h').1, fun h' => (hheap h').2⟩
      · rw [List.map_singleton, hall]
        refine run_cons_eq_some.mpr ⟨s₁.pool, ?_, rfl⟩
        rw [PagePool.readopt, ← htaken.pool]
        rfl
      · have hne : p ≠ slab := by simpa using hp
        have hsame := (htaken.others p hne).1
        refine ⟨?_, hsame.words⟩
        change Function.update s₁.headers slab _ p = _
        rw [Function.update_of_ne hne, hsame.header]
    case filed =>
      exact .promoted (by simp [hbin]) hpart (by rw [if_pos hbin]) rfl rfl fun _ _ _ => rfl
    case full =>
      rw [transfer_of_ne (by simp) (by simp)]
      simp [hnone]
    case owned =>
      intro p hp
      rw [List.mem_singleton.mp hp]
      change (Function.update s₁.headers slab _ slab).heapId = _
      rw [Function.update_self]
      exact htaken.id
    case handed =>
      refine .supplied (by simp [hpart]) ⟨s₁, htaken.merged, ?_, fun _ _ => rfl⟩
      rw [halloc]
      change _ = some (ptr, Function.update s₁.headers slab _ slab)
      rw [Function.update_self]

/-- One round of the loop of `try_adopt`. -/
theorem HeapInv.adoptSlab
    (hinv : HeapInv s (withResult result layout live) lists roster handles none)
    (hslab : slab ∈ lists .hand) (hclass : (s.headers slab).sizeClassIndex = c) (hheap : h ∈ roster)
    (hrange : c < numClasses) (hlayout : classIndex layout = some c) (hsize : 1 ≤ layout.size)
    (hbin : result = none ↔ lists (.bin h c) = []) :
    ∃ s' result' lists', (∀ fuel, HeapSys.adoptLoop h c (fuel + 1) s (some slab) result =
        HeapSys.adoptLoop h c fuel s' (s.links.next slab) result') ∧
      AdoptRound h c layout live roster handles s s' lists lists' slab result result' := by
  obtain ⟨s₁, hover, hinv₁, hbelongs, htaken⟩ := hinv.takeOver hslab hclass hheap hrange
  have hone := hinv.bin_length h c
  have hfree := htaken.merged.kinds.1
  rcases hinv.kinds (hinv.held hslab) with hkinds | hkinds | hkinds
  · obtain ⟨s', lists', hcache, hround⟩ := HeapInv.adopt_allFree hslab hone hinv₁ htaken hkinds
    refine ⟨s', result, lists', fun fuel => ?_, hround⟩
    simp only [HeapSys.adoptLoop, hover, bind, Except.bind, hfree, hkinds.1, if_true, hcache]
  · cases result with
    | none =>
      obtain ⟨s', ptr, lists', huse, hround⟩ :=
        HeapInv.adopt_serve hslab (hbin.mp rfl) hinv₁ hbelongs htaken hlayout hsize hkinds
      refine ⟨s', some ptr, lists', fun fuel => ?_, hround⟩
      simp only [HeapSys.adoptLoop, hover, bind, Except.bind, hfree, hkinds.1,
        Bool.false_eq_true, if_false, huse]
    | some ptr =>
      have hactive : lists (.bin h c) ≠ [] := fun hnil => by simpa using hbin.mpr hnil
      obtain ⟨lists', hround⟩ := HeapInv.adopt_enqueue hslab hone hinv₁ hbelongs htaken hkinds.1
        (.inl ⟨hkinds.2.1, hkinds.2.2, hactive, by simp⟩)
      refine ⟨_, some ptr, lists', fun fuel => ?_, hround⟩
      simp only [HeapSys.adoptLoop, hover, bind, Except.bind, hfree, hkinds.1, Bool.false_eq_true,
        if_false, HeapSys.useAdopted]
  · obtain ⟨lists', hround⟩ := HeapInv.adopt_enqueue hslab hone hinv₁ hbelongs htaken hkinds.1
      (.inr hkinds.2)
    refine ⟨_, result, lists', fun fuel => ?_, hround⟩
    have huse : s₁.useAdopted h c slab result = (s₁.enqueue h c slab, result) := by
      cases result with
      | some ptr => rfl
      | none =>
        have hclass₁ : classIndex layout = some (s₁.headers slab).sizeClassIndex := by
          rw [hbelongs.classIdx, hlayout]
        rcases hinv₁.slabAlloc (.inl rfl) (hinv₁.held hslab) hclass₁ hsize with ⟨heq, -⟩ |
          ⟨_, _, _, _, -, -, hpos⟩
        · simp only [HeapSys.useAdopted, heq]
        · rw [htaken.merged.kinds.2, hkinds.2.2] at hpos
          simp at hpos
    simp only [HeapSys.adoptLoop, hover, bind, Except.bind, hfree, hkinds.1,
      Bool.false_eq_true, if_false, huse]

/-- The loop of `try_adopt` ends and has adopted each slab in hand once. -/
theorem HeapInv.adoptLoop {fuel : ℕ} {taken : List ℕ}
    (hinv : HeapInv s (withResult result layout live) lists roster handles none)
    (hhand : lists .hand = taken) (hchain : Chain s.links.next taken.head? taken)
    (hfuel : taken.length ≤ fuel) (hclass : ∀ p ∈ taken, (s.headers p).sizeClassIndex = c)
    (hheap : h ∈ roster) (hrange : c < numClasses) (hlayout : classIndex layout = some c)
    (hsize : 1 ≤ layout.size) (hbin : result = none ↔ lists (.bin h c) = []) :
    ∃ s' result' lists' used, HeapSys.adoptLoop h c fuel s taken.head? result = .ok (s', result') ∧
      Ready s' (withResult result' layout live) lists' roster handles ∧
      AdoptResult h c live s s' lists lists' taken used result result' := by
  induction taken generalizing s lists result fuel with
  | nil =>
    exact ⟨s, result, lists, [], by simp [HeapSys.adoptLoop], ⟨hinv, hhand⟩,
      .nil (hinv.bin_length h c)⟩
  | cons slab taken ih =>
    have hslab : slab ∈ lists .hand := by simp [hhand]
    have hnot : slab ∉ taken := by
      have hnodup := hinv.separate.nodup .hand
      rw [hhand, List.nodup_cons] at hnodup
      exact hnodup.1
    obtain ⟨fuel, rfl⟩ := Nat.exists_eq_add_of_le'
      (Nat.one_le_of_lt (Nat.lt_of_lt_of_le (Nat.succ_pos _) hfuel))
    have hne {p : ℕ} (hp : p ∈ taken) : p ∈ lists .hand ∧ p ≠ slab := by
      refine ⟨by simp [hhand, hp], ?_⟩
      rintro rfl
      exact hnot hp
    have hrest : Chain s.links.next (s.links.next slab) taken := hchain.2
    have hnext : s.links.next slab = taken.head? := hrest.head_eq
    obtain ⟨s₁, result₁, lists₁, hloop₁, hround⟩ :=
      hinv.adoptSlab hslab (hclass slab (by simp)) hheap hrange hlayout
      hsize hbin
    obtain ⟨used₁, hadopted⟩ := hround.adopted
    have hheader {p : ℕ} (hp : p ∈ taken) : s₁.headers p = s.headers p :=
      (hadopted.sweep.same p (by simpa using (hne hp).2)).header
    obtain ⟨s', result', lists', used', hloop, hready, hresult⟩ := ih hround.inv
      (by rw [hround.hand, hhand, List.erase_cons_head])
      (by rw [← hnext]; exact hrest.congr fun p hp => hround.links p (hne hp).1 (hne hp).2)
      (by simpa using hfuel)
      (fun p hp => by rw [hheader hp]; exact hclass p (List.mem_cons_of_mem _ hp))
      (hadopted.bin_iff hbin)
    refine ⟨s', result', lists', used₁ ++ used', ?_, hready,
      hadopted.cons hinv (fun p hp => ?_) hnot hresult⟩
    · rw [List.head?_cons, hloop₁ fuel, hnext, hloop]
    · rw [← hhand] at hp
      exact hinv.held hp

/-- `try_adopt` behind an empty bin ends and has adopted each abandoned slab of the class once. -/
theorem Ready.tryAdopt (hready : Ready s live lists roster handles) (hheap : h ∈ roster)
    (hrange : c < numClasses) (hlayout : classIndex layout = some c) (hsize : 1 ≤ layout.size)
    (hempty : (s.heap h).bins c = none) :
    ∃ s' result lists' used, s.tryAdopt h c = .ok (s', result) ∧
      Ready s' (withResult result layout live) lists' roster handles ∧
      AdoptResult h c live { s with
        pool := s.pool.adoptAll 0 c } s' (withHand lists (s.pool.abandoned c)) lists'
        (s.pool.abandoned c) used none result := by
  have hadopted := hready.inv.adoptAll hready.hand hrange
  refine hadopted.adoptLoop (withHand_hand _) (hready.inv.abandoned c) le_rfl
    (fun p hp => (hready.inv.orphans c p hp).classIdx) hheap hrange hlayout hsize ?_
  rw [withHand_bin, hready.inv.bins, hempty]
  simp

end ClMalloc
