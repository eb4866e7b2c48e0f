import ClMalloc.HeapSlots

/-!
# The slabs of a heap's own queues

`try_partial` takes the first slab of the partial queue, `retire_active` queues an exhausted
slab, and `scan_full_list` walks the full queue. The scan drains each slab once and then
leaves it where it is, returns it to the pool, or makes it available: the first such slab
becomes the active one, the others are pushed to the partial queue.
-/

namespace ClMalloc

open Intrusive Placement

variable {s s' : HeapSys} {live : List Allocation} {lists : SlabPlace → List ℕ}
  {roster handles : List ℕ} {busy : Option ℕ} {h c slab ptr : ℕ}

/-- What a helper leaves behind: the invariant, an empty hand, and what the bin holds. -/
structure Ready (s : HeapSys) (live : List Allocation) (lists : SlabPlace → List ℕ)
    (roster handles : List ℕ) :
    Prop where
  inv : HeapInv s live lists roster handles none
  hand : lists .hand = []

/-- The hand is empty again after a slab passed through it. -/
theorem hand_transfer {src dst : SlabPlace} (hhand : lists .hand = []) (hdst : dst ≠ .hand) :
    transfer (transfer lists src .hand slab) .hand dst slab .hand = [] := by
  rw [transfer_src hdst, transfer_dst, hhand]
  simp

/-- The hand is empty again after a slab in it was cached. -/
theorem hand_erase_transfer {src : SlabPlace} (hhand : lists .hand = []) :
    (transfer lists src .hand slab .hand).erase slab = [] := by
  rw [transfer_dst, hhand]
  simp

/-- The slab that passed is in hand. -/
theorem mem_hand_transfer {src : SlabPlace} : slab ∈ transfer lists src .hand slab .hand :=
  by simp [transfer_dst]

/-- `try_partial` makes a slab with an available slot active, if the partial queue has one. -/
theorem Ready.tryPartial (hready : Ready s live lists roster handles)
    (hempty : (s.heap h).bins c = none) :
    (s.tryPartial h c = (s, false) ∧ lists (.queue ⟨h, .part, c⟩) = []) ∨
      ∃ s' lists' slab, s.tryPartial h c = (s', true) ∧ Ready s' live lists' roster handles ∧
        (s'.heap h).bins c = some slab ∧ 0 < (s'.headers slab).freeCount := by
  have hinv := hready.inv
  cases hlist : lists (.queue ⟨h, .part, c⟩) with
  | nil => exact .inl ⟨by simp [HeapSys.tryPartial, hinv.slabListPop_nil hlist], rfl⟩
  | cons slab rest =>
    have hslab : slab ∈ lists (.queue ⟨h, .part, c⟩) := by simp [hlist]
    obtain ⟨links, hpop, hinv', hnext, hprev⟩ := hinv.slabListPop hlist
    have hbelongs := hinv.belongs (.queue ⟨h, .part, c⟩) h c rfl slab hslab
    have hbin := hinv'.setBin_some mem_hand_transfer hempty (hbelongs.congr rfl rfl) ⟨hnext, hprev⟩
    refine .inr ⟨_, _, slab, ?_, ⟨hbin, hand_transfer hready.hand (by simp)⟩, ?_, ?_⟩
    · simp only [HeapSys.tryPartial, hpop]
    · rw [(HeapSys.setBin_heap _ h c (some slab) h c).2, if_pos ⟨rfl, rfl⟩]
    · exact (hinv.counts _ slab hslab (by simp)).1

/-- `retire_active` queues the exhausted active slab. -/
theorem Ready.retireActive (hready : Ready s live lists roster handles)
    (hslab : (s.heap h).bins c = some slab) (hcount : (s.headers slab).freeCount = 0) :
    ∃ lists', Ready (s.retireActive h c) live lists' roster handles ∧
      ((s.retireActive h c).heap h).bins c = none ∧
      lists' (.queue ⟨h, .full, c⟩) = slab :: lists (.queue ⟨h, .full, c⟩) ∧
      lists' (.queue ⟨h, .part, c⟩) = lists (.queue ⟨h, .part, c⟩) := by
  have hinv := hready.inv
  have hbelongs := hinv.belongs (.bin h c) h c rfl slab (hinv.mem_bin.mpr hslab)
  have htaken := hinv.setBin_none hslab
  have hqueued := htaken.slabListPush ⟨h, .full, c⟩ mem_hand_transfer
    (hbelongs.congr rfl (s.setBin_heap h c none h c).1) hcount
  have heq : s.retireActive h c = (s.setBin h c none).slabListPush ⟨h, .full, c⟩ slab := by
    simp [HeapSys.retireActive, hslab]
  rw [heq]
  refine ⟨_, ⟨hqueued, hand_transfer hready.hand (by simp)⟩, ?_, ?_, ?_⟩
  · change ((s.setBin h c none).heap h).bins c = none
    rw [(s.setBin_heap h c none h c).2, if_pos ⟨rfl, rfl⟩]
  · rw [transfer_dst, transfer_of_ne (by simp) (by simp)]
  · rw [transfer_of_ne (by simp) (by simp), transfer_of_ne (by simp) (by simp)]

/-- Retiring the active slab changes no slab and nothing of the pool. -/
theorem HeapSys.retireActive_frame (s : HeapSys) (h c : ℕ) :
    (s.retireActive h c).headers = s.headers ∧ (s.retireActive h c).next = s.next ∧
      (s.retireActive h c).pool = s.pool := by
  unfold HeapSys.retireActive
  split <;> exact ⟨rfl, rfl, rfl⟩

/-- Where a slab found partly free goes. -/
def HeapSys.promoteTo (s : HeapSys) (h c : ℕ) : SlabPlace :=
  if (s.heap h).bins c = none then .bin h c else .queue ⟨h, .part, c⟩

/-- It does not stay in hand. -/
theorem HeapSys.promoteTo_ne_hand (s : HeapSys) (h c : ℕ) : s.promoteTo h c ≠ .hand := by
  unfold HeapSys.promoteTo
  split <;> simp

/-- A slab in hand that is partly free becomes active, or joins the partial queue. -/
theorem HeapInv.promote (hinv : HeapInv s live lists roster handles none)
    (hslab : slab ∈ lists .hand) (hbelongs : s.Belongs roster h c slab)
    (hcount : Queue.part.CountOk (s.headers slab))
    (hlinks : s.links.next slab = none ∧ s.links.prev slab = none) :
    HeapInv (s.promote h c slab) live (transfer lists .hand (s.promoteTo h c) slab) roster
      handles none := by
  unfold HeapSys.promote HeapSys.promoteTo
  split
  case isTrue hempty => exact hinv.setBin_some hslab hempty hbelongs hlinks
  case isFalse => exact hinv.slabListPush ⟨h, .part, c⟩ hslab hbelongs hcount

/-- Setting a bin changes neither ids nor counters. -/
theorem HeapSys.setBin_same (s : HeapSys) (h c : ℕ) (slab : Option ℕ) (h' : ℕ) :
    ((s.setBin h c slab).heap h').id = (s.heap h').id ∧
      ((s.setBin h c slab).heap h').metrics = (s.heap h').metrics := by
  by_cases hh : h' = h
  · subst hh
    simp [HeapSys.setBin, HeapSys.setHeap]
  · simp [HeapSys.setBin, HeapSys.setHeap, hh]

/-- Promoting a slab changes no slab, and of the heaps only the bins. -/
theorem HeapSys.promote_frame (s : HeapSys) (h c slab : ℕ) :
    (s.promote h c slab).headers = s.headers ∧ (s.promote h c slab).next = s.next ∧
      (s.promote h c slab).pool = s.pool ∧
        ∀ h', ((s.promote h c slab).heap h').id = (s.heap h').id ∧
        ((s.promote h c slab).heap h').metrics = (s.heap h').metrics := by
  unfold HeapSys.promote
  split
  · exact ⟨rfl, rfl, rfl, s.setBin_same h c (some slab)⟩
  · exact ⟨rfl, rfl, rfl, fun _ => ⟨rfl, rfl⟩⟩

/-- A slab that is not fully free and has an available slot fits the partial queue. -/
theorem HeapInv.countOk_part (hinv : HeapInv s live lists roster handles busy)
    (hslab : s.pool.Held slab) (hfree : (s.headers slab).isFullyFree = false)
    (hpos : 0 < (s.headers slab).freeCount) :
    Queue.part.CountOk (s.headers slab) := by
  have hle := (hinv.slabs slab hslab).freeCount_le
  rw [SlabHeader.isFullyFree, beq_eq_false_iff_ne] at hfree
  exact ⟨hpos, by omega⟩

/-- Erasing a node of a list without repetition takes it from where it is. -/
theorem erase_middle {before after : List ℕ} {n : ℕ} (hnodup : (before ++ n :: after).Nodup) :
    (before ++ n :: after).erase n = before ++ after := by
  have hnot : n ∉ before := fun hin =>
    (List.nodup_append.mp hnodup).2.2 n hin n List.mem_cons_self rfl
  rw [List.erase_append_right _ hnot, List.erase_cons_head]

/-- The active slab, if there is one, has an available slot. -/
def HeapSys.BinReady (s : HeapSys) (h c : ℕ) : Prop :=
  ∀ slab, (s.heap h).bins c = some slab → 0 < (s.headers slab).freeCount

/-- The slabs seen that are partly free are filed: the first becomes active if none is, the others
are pushed to the partial queue. -/
structure Filed (h c : ℕ) (s : HeapSys) (lists lists' : SlabPlace → List ℕ) (seen : List ℕ) :
    Prop where
  active : lists' (.bin h c) = (lists (.bin h c) ++ seen.filter s.partFree).take 1
  part : lists' (.queue ⟨h, .part, c⟩) =
    ((lists (.bin h c) ++ seen.filter s.partFree).drop 1).reverse ++ lists (.queue ⟨h, .part, c⟩)
  others : ∀ place : SlabPlace, place.owner ≠ none → place.owner ≠ some (h, c) →
    lists' place = lists place

variable {s₁ : HeapSys} {lists₁ lists' : SlabPlace → List ℕ} {seen : List ℕ}

/-- Nothing is filed when nothing is seen. -/
theorem Filed.nil (hbin : (lists (.bin h c)).length ≤ 1) : Filed h c s lists lists [] where
  active := by
    rw [List.filter_nil, List.append_nil]
    exact (List.take_of_length_le hbin).symm
  part := by
    rw [List.filter_nil, List.append_nil, List.drop_eq_nil_of_le hbin]
    rfl
  others := fun _ _ _ => rfl

/-- The first slab is filed, then the others. -/
theorem Filed.cons (hkinds : ∀ p ∈ seen, s₁.partFree p = s.partFree p)
    (hfirst : Filed h c s lists lists₁ [slab]) (hrest : Filed h c s₁ lists₁ lists' seen) :
    Filed h c s lists lists' (slab :: seen) := by
  have hpart : seen.filter s₁.partFree = seen.filter s.partFree := List.filter_congr hkinds
  have hsplit : lists (.bin h c) ++ (slab :: seen).filter s.partFree =
      (lists (.bin h c) ++ [slab].filter s.partFree) ++ seen.filter s.partFree := by
    rw [List.append_assoc, ← List.filter_append, List.singleton_append]
  constructor
  case active =>
    rw [hrest.active, hfirst.active, hpart, hsplit]
    cases lists (.bin h c) ++ [slab].filter s.partFree <;> simp
  case part =>
    rw [hrest.part, hfirst.part, hfirst.active, hpart, hsplit]
    cases lists (.bin h c) ++ [slab].filter s.partFree <;> simp
  case others =>
    intro place howned hother
    rw [hrest.others place howned hother, hfirst.others place howned hother]

/-- A slab that is not partly free is not filed. -/
theorem Filed.skip (hbin : (lists (.bin h c)).length ≤ 1) (hslab : s.partFree slab = false)
    (hactive : lists' (.bin h c) = lists (.bin h c))
    (hpart : lists' (.queue ⟨h, .part, c⟩) = lists (.queue ⟨h, .part, c⟩))
    (hothers : ∀ place : SlabPlace, place.owner ≠ none → place.owner ≠ some (h, c) →
      lists' place = lists place) :
    Filed h c s lists lists' [slab] := by
  have hnil : [slab].filter s.partFree = [] := by simp [hslab]
  refine ⟨?_, ?_, hothers⟩
  · rw [hnil, List.append_nil, hactive]
    exact (List.take_of_length_le hbin).symm
  · rw [hnil, List.append_nil, List.drop_eq_nil_of_le hbin, hpart]
    rfl

/-- A partly free slab in hand is filed as the active slab if there is none, else in the partial
queue. -/
theorem Filed.promoted (hbin : (lists (.bin h c)).length ≤ 1) (hslab : s.partFree slab = true)
    {dst : SlabPlace}
    (hdst : dst = if lists (.bin h c) = [] then .bin h c else .queue ⟨h, .part, c⟩)
    (hactive : lists₁ (.bin h c) = lists (.bin h c))
    (hpart : lists₁ (.queue ⟨h, .part, c⟩) = lists (.queue ⟨h, .part, c⟩))
    (hothers : ∀ place : SlabPlace, place.owner ≠ none → place.owner ≠ some (h, c) →
      lists₁ place = lists place) :
    Filed h c s lists (transfer lists₁ .hand dst slab) [slab] := by
  have hself : [slab].filter s.partFree = [slab] := by simp [hslab]
  have hframe (place : SlabPlace) (howned : place.owner ≠ none)
      (hother : place.owner ≠ some (h, c)) :
      transfer lists₁ .hand dst slab place = lists place := by
    rw [transfer_of_ne, hothers place howned hother]
    · rintro rfl
      exact howned rfl
    · rintro rfl
      rw [hdst] at hother
      split at hother <;> exact hother rfl
  by_cases hempty : lists (.bin h c) = []
  · rw [if_pos hempty] at hdst
    subst hdst
    refine ⟨?_, ?_, hframe⟩
    · rw [hself, transfer_dst, hactive, hempty]
      rfl
    · rw [hself, hempty, transfer_of_ne (by simp) (by simp), hpart]
      rfl
  · rw [if_neg hempty] at hdst
    subst hdst
    obtain ⟨active, hone⟩ : ∃ active, lists (.bin h c) = [active] := by
      refine List.length_eq_one_iff.mp (le_antisymm hbin ?_)
      exact List.length_pos_iff.mpr hempty
    refine ⟨?_, ?_, hframe⟩
    · rw [hself, transfer_of_ne (by simp) (by simp), hactive, hone]
      rfl
    · rw [hself, hone, transfer_dst, hpart]
      rfl

/-- `cache_slab` for the slabs that are fully free. -/
def PagePool.recycle (pool : PagePool) (slab : ℕ × Bool) : Option PagePool :=
  if slab.2 then pool.cacheSlabToEnd slab.1 else some pool

/-- The pool after `cache_slab`. -/
theorem HeapSys.cacheSlab_pool {pool : PagePool}
    (hcache : s.cacheSlab slab = .ok { s with pool := pool }) :
    s.pool.cacheSlabToEnd slab = some pool := by
  unfold HeapSys.cacheSlab at hcache
  split at hcache <;> try contradiction
  case h_1 pool' hsome =>
    cases hcache
    exact hsome

/-- What a scan does with the slabs `seen` of the full queue. -/
structure ScanResult (h c : ℕ) (live : List Allocation) (s s' : HeapSys)
    (lists lists' : SlabPlace → List ℕ) (seen : List ℕ) : Prop where
  sweep : Sweep PagePool.recycle live s s' seen []
  filed : Filed h c s lists lists' seen
  full : ∀ before rest, lists (.queue ⟨h, .full, c⟩) = before ++ seen ++ rest →
    lists' (.queue ⟨h, .full, c⟩) = before ++ seen.filter s.noneFree ++ rest

/-- A scan that sees no slab does nothing. -/
theorem ScanResult.nil (hbin : (lists (.bin h c)).length ≤ 1) :
    ScanResult h c live s s lists lists [] where
  sweep := .nil
  filed := .nil hbin
  full := fun before rest hlist => by simpa using hlist

/-- The scan of one slab followed by the scan of others. -/
theorem ScanResult.cons (hinv : HeapInv s live lists roster handles busy)
    (hheld : ∀ p ∈ slab :: seen, s.pool.Held p) (hslab : slab ∉ seen)
    (hfirst : ScanResult h c live s s₁ lists lists₁ [slab])
    (hrest : ScanResult h c live s₁ s' lists₁ lists' seen) :
    ScanResult h c live s s' lists lists' (slab :: seen) := by
  have hapart : [slab].Disjoint seen := List.singleton_disjoint.mpr hslab
  have hkinds {p : ℕ} (hp : p ∈ seen) := hfirst.sweep.kinds_eq hinv hheld hapart hp
  refine ⟨hfirst.sweep.append hinv hheld hapart hrest.sweep,
    hfirst.filed.cons (fun p hp => (hkinds hp).2.2) hrest.filed,
    fun before rest hlist => ?_⟩
  have hnone : seen.filter s₁.noneFree = seen.filter s.noneFree :=
    List.filter_congr fun p hp => (hkinds hp).2.1
  have hfull := hfirst.full before (seen ++ rest) (by simpa using hlist)
  rw [hrest.full (before ++ [slab].filter s.noneFree) rest (by simpa using hfull), hnone,
    List.append_assoc before, ← List.filter_append, List.singleton_append]

/-- A heap has at most one active slab of a class. -/
theorem HeapInv.bin_length (hinv : HeapInv s live lists roster handles busy) (h c : ℕ) :
    (lists (.bin h c)).length ≤ 1 := by
  rw [hinv.bins]
  cases (s.heap h).bins c <;> simp

/-- A slab of a list without repetition leaves it, and the slabs around it stay. -/
theorem full_removed {before rest : List ℕ} (hnodup : (lists (.queue ⟨h, .full, c⟩)).Nodup)
    (hlist : lists (.queue ⟨h, .full, c⟩) = before ++ [slab] ++ rest) :
    (lists (.queue ⟨h, .full, c⟩)).erase slab = before ++ [] ++ rest := by
  rw [List.append_assoc, List.singleton_append] at hlist
  rw [hlist] at hnodup ⊢
  rw [erase_middle hnodup, List.append_nil]

/-- A slab of the full queue that is fully free is returned to the pool. -/
theorem Ready.scan_allFree (hready : Ready s live lists roster handles)
    (hslab : slab ∈ lists (.queue ⟨h, .full, c⟩))
    (hinv₁ : HeapInv s₁ live lists roster handles (some slab)) (hdrains : s.Drains s₁ slab)
    (hkinds : s.allFree slab = true ∧ s.partFree slab = false ∧ s.noneFree slab = false) :
    ∃ s₂ s' lists', s₁.slabListRemove slab = .ok s₂ ∧ s₂.cacheSlab slab = .ok s' ∧
      Ready s' live lists' roster handles ∧ ScanResult h c live s s' lists lists' [slab] := by
  obtain ⟨hall, hpart, hnone⟩ := hkinds
  have hfree : (s₁.headers slab).isFullyFree = true := by rw [hdrains.merged.kinds.1, hall]
  obtain ⟨links, hremove, hinv₂, -, -⟩ := hinv₁.slabListRemove hslab (.inr rfl)
  obtain ⟨pool, hcache, hinv₃⟩ := hinv₂.cacheSlab mem_hand_transfer hfree
  have hpool := HeapSys.cacheSlab_pool hcache
  refine ⟨_, _, _, hremove, hcache,
    ⟨hinv₃, by rw [withHand_hand]; exact hand_erase_transfer hready.hand⟩, ?_⟩
  refine ⟨.single hdrains.merged hdrains.others hdrains.heap
    (hinv₁.slabs slab (hinv₁.held hslab)) rfl rfl ?_
      fun _ => ⟨rfl, rfl⟩, ?_,
    fun before rest hlist => ?_⟩
  · rw [hall, ← hdrains.pool]
    exact hpool
  · refine .skip (hready.inv.bin_length h c) hpart ?_ ?_ fun place howned hother => ?_
    · rw [withHand_bin, transfer_of_ne (by simp) (by simp)]
    · rw [withHand_queue, transfer_of_ne (by simp) (by simp)]
    · rw [withHand, Function.update_of_ne (by rintro rfl; exact howned rfl), transfer_of_ne]
      · rintro rfl
        exact hother rfl
      · rintro rfl
        exact howned rfl
  · rw [withHand_queue, transfer_src (by simp), full_removed (hready.inv.separate.nodup _) hlist]
    simp [hnone]

/-- A slab of the full queue that is partly free is promoted. -/
theorem Ready.scan_partFree (hready : Ready s live lists roster handles)
    (hslab : slab ∈ lists (.queue ⟨h, .full, c⟩))
    (hinv₁ : HeapInv s₁ live lists roster handles (some slab)) (hdrains : s.Drains s₁ slab)
    (hkinds : s.allFree slab = false ∧ s.partFree slab = true ∧ s.noneFree slab = false) :
    ∃ s₂ lists', s₁.slabListRemove slab = .ok s₂ ∧
      Ready (s₂.promote h c slab) live lists' roster handles ∧
      ScanResult h c live s (s₂.promote h c slab) lists lists' [slab] := by
  obtain ⟨hall, hpart, hnone⟩ := hkinds
  have hfree : (s₁.headers slab).isFullyFree = false := by rw [hdrains.merged.kinds.1, hall]
  have hcount := hinv₁.countOk_part (hinv₁.held hslab) hfree (hdrains.merged.kinds.2.mpr hnone)
  have hbelongs := hinv₁.belongs (.queue ⟨h, .full, c⟩) h c rfl slab hslab
  obtain ⟨links, hremove, hinv₂, hlinks⟩ := hinv₁.slabListRemove hslab (.inr rfl)
  have hinv₃ := hinv₂.promote (h := h) (c := c) mem_hand_transfer
    (hbelongs.congr rfl rfl) hcount hlinks
  have hhand := HeapSys.promoteTo_ne_hand { s₁ with links := links } h c
  have hframe := HeapSys.promote_frame { s₁ with links := links } h c slab
  have hbin := hinv₁.bins h c
  refine ⟨_, _, hremove, ⟨hinv₃, hand_transfer hready.hand hhand⟩, ?_⟩
  refine ⟨.single hdrains.merged hdrains.others hdrains.heap
    (hinv₁.slabs slab (hinv₁.held hslab)) hframe.1 hframe.2.1
      ?_ hframe.2.2.2, ?_,
    fun before rest hlist => ?_⟩
  · rw [hall, hframe.2.2.1, ← hdrains.pool]
    rfl
  · refine .promoted (hinv₁.bin_length h c) hpart ?_ (transfer_of_ne (by simp) (by simp))
      (transfer_of_ne (by simp) (by simp)) fun place howned hother => ?_
    · unfold HeapSys.promoteTo
      rw [hinv₁.bins]
      cases (s₁.heap h).bins c <;> rfl
    · rw [transfer_of_ne]
      · rintro rfl
        exact hother rfl
      · rintro rfl
        exact howned rfl
  · rw [transfer_of_ne (by simp), transfer_src (by simp),
      full_removed (hready.inv.separate.nodup _) hlist]
    · simp [hnone]
    · unfold HeapSys.promoteTo
      split <;> simp

/-- A slab of the full queue without a free slot stays. -/
theorem Ready.scan_noneFree (hready : Ready s live lists roster handles)
    (hslab : slab ∈ lists (.queue ⟨h, .full, c⟩))
    (hinv₁ : HeapInv s₁ live lists roster handles (some slab)) (hdrains : s.Drains s₁ slab)
    (hkinds : s.allFree slab = false ∧ s.partFree slab = false ∧ s.noneFree slab = true) :
    Ready s₁ live lists roster handles ∧ ScanResult h c live s s₁ lists lists [slab] := by
  obtain ⟨hall, hpart, hnone⟩ := hkinds
  have hzero : (s₁.headers slab).freeCount = 0 := by
    rw [hdrains.merged.count]
    simpa [HeapSys.noneFree] using hnone
  have hsettled := hinv₁.settle fun head hin => by
    have heq := hinv₁.separate.unique hin hslab
    cases heq
    exact hzero
  refine ⟨⟨hsettled, hready.hand⟩, .single hdrains.merged hdrains.others hdrains.heap
    (hinv₁.slabs slab (hinv₁.held hslab)) rfl rfl ?_ fun _ => ⟨rfl, rfl⟩,
    .skip (hinv₁.bin_length h c) hpart rfl rfl fun _ _ _ => rfl, fun before rest hlist => ?_⟩
  · rw [hall, hdrains.pool]
    rfl
  · rw [hlist]
    simp [hnone]

/-- One round of the loop of `scan_full_list`. -/
theorem Ready.scanSlab (hready : Ready s live lists roster handles)
    (hslab : slab ∈ lists (.queue ⟨h, .full, c⟩)) :
    ∃ s' lists', (∀ fuel, HeapSys.scanLoop h c (fuel + 1) s (some slab) =
        HeapSys.scanLoop h c fuel s' (s.links.next slab)) ∧
      Ready s' live lists' roster handles ∧ ScanResult h c live s s' lists lists' [slab] := by
  obtain ⟨s₁, hdrain, hinv₁, hdrains⟩ := hready.inv.drainPending (hready.inv.held hslab)
  obtain ⟨hfree, hpos⟩ := hdrains.merged.kinds
  rcases hready.inv.kinds (hready.inv.held hslab) with hkinds | hkinds | hkinds
  · obtain ⟨s₂, s', lists', hremove, hcache, hready', hresult⟩ :=
      hready.scan_allFree hslab hinv₁ hdrains hkinds
    refine ⟨s', lists', fun fuel => ?_, hready', hresult⟩
    simp only [HeapSys.scanLoop, hdrain, bind, Except.bind, hfree, hkinds.1,
      if_true, hremove, hcache]
  · obtain ⟨s₂, lists', hremove, hready', hresult⟩ :=
      hready.scan_partFree hslab hinv₁ hdrains hkinds
    refine ⟨_, lists', fun fuel => ?_, hready', hresult⟩
    simp only [HeapSys.scanLoop, hdrain, bind, Except.bind, hfree, hkinds.1, hpos, hkinds.2.2,
      if_true, hremove, Bool.false_eq_true, if_false]
  · obtain ⟨hready', hresult⟩ := hready.scan_noneFree hslab hinv₁ hdrains hkinds
    refine ⟨s₁, lists, fun fuel => ?_, hready', hresult⟩
    simp only [HeapSys.scanLoop, hdrain, bind, Except.bind, hfree, hkinds.1, hpos, hkinds.2.2,
      Bool.true_eq_false, Bool.false_eq_true, if_false]

/-- The loop of `scan_full_list` ends and has seen each slab of the full queue that was left
once. -/
theorem Ready.scanLoop {before rest : List ℕ} (hready : Ready s live lists roster handles)
    (hlist : lists (.queue ⟨h, .full, c⟩) = before ++ rest) :
    ∃ s' lists', (∀ fuel, rest.length ≤ fuel → HeapSys.scanLoop h c fuel s rest.head? = .ok s') ∧
      Ready s' live lists' roster handles ∧ ScanResult h c live s s' lists lists' rest := by
  induction rest generalizing s lists before with
  | nil =>
    exact ⟨s, lists, fun fuel _ => by simp [HeapSys.scanLoop], hready,
    .nil (hready.inv.bin_length h c)⟩
  | cons slab rest ih =>
    have hslab : slab ∈ lists (.queue ⟨h, .full, c⟩) := by simp [hlist]
    have hlinked : DList s.links _ (lists (.queue ⟨h, .full, c⟩)) := hready.inv.linked ⟨h, .full, c⟩
    rw [hlist] at hlinked
    have hnodup : (before ++ slab :: rest).Nodup := hlist ▸ hready.inv.separate.nodup _
    have hnot : slab ∉ rest := (List.nodup_cons.mp (List.nodup_append.mp hnodup).2.1).1
    obtain ⟨s₁, lists₁, hround, hready₁, hresult₁⟩ := hready.scanSlab hslab
    have hlist₁ := hresult₁.full before rest (by simpa using hlist)
    obtain ⟨s', lists', hloop, hready', hresult⟩ := ih hready₁ hlist₁
    refine ⟨s', lists', fun fuel hfuel => ?_, hready',
      hresult₁.cons hready.inv (fun p hp => ?_) hnot hresult⟩
    · obtain ⟨fuel, rfl⟩ := Nat.exists_eq_add_of_le'
        (Nat.one_le_of_lt (Nat.lt_of_lt_of_le (Nat.succ_pos _) hfuel))
      rw [List.head?_cons, hround fuel, hlinked.next_eq, hloop fuel (by simpa using hfuel)]
    · have hmem : p ∈ lists (.queue ⟨h, .full, c⟩) := by
        rw [hlist]
        exact List.mem_append_right _ hp
      exact hready.inv.held hmem

/-- The pages in use are enough fuel for a queue. -/
theorem HeapInv.queue_length_le (hinv : HeapInv s live lists roster handles busy)
    (head : QueueHead) : (lists (.queue head)).length ≤ s.pool.inUse.length := by
  refine List.Nodup.length_le_of_subset (hinv.separate.nodup _) fun p hp => ?_
  exact (hinv.inUse p).mpr ⟨_, hp⟩

/-- `scan_full_list` ends and has seen each slab of the full queue once. -/
theorem Ready.scanFullList (hready : Ready s live lists roster handles) (h c : ℕ) :
    ∃ s' lists', s.scanFullList h c = .ok s' ∧
      HeapSys.scanLoop h c (lists (.queue ⟨h, .full, c⟩)).length s
        (s.links.head ⟨h, .full, c⟩) = .ok s' ∧
      Ready s' live lists' roster handles ∧
        ScanResult h c live s s' lists lists' (lists (.queue ⟨h, .full, c⟩)) := by
  have hlinked : DList s.links _ (lists (.queue ⟨h, .full, c⟩)) := hready.inv.linked ⟨h, .full, c⟩
  have hhead : s.links.head ⟨h, .full, c⟩ = (lists (.queue ⟨h, .full, c⟩)).head? := hlinked.read_eq
  obtain ⟨s', lists', hloop, hready', hresult⟩ :=
    hready.scanLoop (List.nil_append (lists (.queue ⟨h, .full, c⟩))).symm
  rw [HeapSys.scanFullList, hhead]
  exact ⟨s', lists', hloop _ (hready.inv.queue_length_le _), hloop _ le_rfl, hready', hresult⟩

/-- A slab that a scan behind an empty bin made active has an available slot. -/
theorem ScanResult.binReady (hresult : ScanResult h c live s s' lists lists' seen)
    (hinv : HeapInv s live lists roster handles busy)
    (hinv' : HeapInv s' live lists' roster handles busy) (hempty : (s.heap h).bins c = none) :
    s'.BinReady h c := by
  intro slab hslab
  have hmem := hinv'.mem_bin.mpr hslab
  rw [hresult.filed.active, hinv.bins, hempty] at hmem
  have hfound := List.mem_of_mem_take hmem
  simp only [Option.toList_none, List.nil_append, List.mem_filter] at hfound
  refine (hresult.sweep.merged slab hfound.1 (by simp)).kinds.2.mpr ?_
  have hpart := hfound.2
  rw [HeapSys.partFree, Bool.and_eq_true, Bool.not_eq_true'] at hpart
  simpa using hpart.2

end ClMalloc
