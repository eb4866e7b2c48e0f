import ClMalloc.HeapAlloc

/-!
# Frees into the heaps

A free finds the slab of its pointer by masking. The slabs that carry the id of a live heap
are the ones that heap holds, so the local path is taken for these, and the count after the
free tells the queue the slab was in.
-/

namespace ClMalloc

open Intrusive Placement

variable {s s' : HeapSys} {live : List Allocation} {lists : SlabPlace → List ℕ}
  {roster handles : List ℕ} {busy : Option ℕ} {h c slab : ℕ} {a : Allocation}

/-- A live allocation of a class lies in a held slab of that class. -/
theorem HeapInv.slab_of_live (hinv : HeapInv s live lists roster handles busy) (ha : a ∈ live)
    (hclass : classIndex a.layout = some c) :
    s.pool.Held (slabMask a.ptr) ∧ (s.headers (slabMask a.ptr)).sizeClassIndex = c := by
  have hserves := (hinv.serves a ha).2
  rw [hclass] at hserves
  exact hserves

/-- Freeing one allocation leaves the others at different addresses. -/
theorem HeapInv.erase_live (hinv : HeapInv s live lists roster handles busy) (a : Allocation) :
    ((live.erase a).map Allocation.ptr).Nodup :=
  hinv.liveOnce.sublist (List.erase_sublist.map _)

/-- Writes to a pointer stay in its page. -/
theorem update_outside {next : ℕ → Option ℕ} {ptr p : ℕ} (value : Option ℕ)
    (hp : slabMask p ≠ slabMask ptr) :
    Function.update next ptr value p = next p := by
  refine Function.update_of_ne ?_ _ _
  rintro rfl
  exact hp rfl

/-- `dealloc_local` makes one more slot of the slab available. -/
theorem HeapInv.deallocLocal (hinv : HeapInv s live lists roster handles none) (ha : a ∈ live)
    (hclass : classIndex a.layout = some c) :
    HeapInv (s.deallocLocal (slabMask a.ptr) a.ptr) (live.erase a) lists roster handles
      (some (slabMask a.ptr)) ∧
      ((s.deallocLocal (slabMask a.ptr) a.ptr).headers (slabMask a.ptr)).freeCount =
        (s.headers (slabMask a.ptr)).freeCount + 1 := by
  obtain ⟨hheld, -⟩ := hinv.slab_of_live ha hclass
  obtain ⟨hok, hcount⟩ := (hinv.slabs _ hheld).deallocLocal ha ⟨by simp [hclass], rfl⟩ hinv.liveOnce
  refine ⟨?_, by simpa [HeapSys.deallocLocal] using hcount⟩
  exact hinv.content hheld (.inl rfl) rfl (.inl rfl) hok (fun p hp => update_outside _ hp)
    (fun b hb _ => List.mem_of_mem_erase hb) (fun b hb => hinv.serves b (List.mem_of_mem_erase hb))
    (hinv.erase_live a)

/-- `dealloc_remote` makes no slot available yet. -/
theorem HeapInv.deallocRemote (hinv : HeapInv s live lists roster handles none) (ha : a ∈ live)
    (hclass : classIndex a.layout = some c) :
    HeapInv (s.deallocRemote (slabMask a.ptr) a.ptr) (live.erase a) lists roster handles none := by
  obtain ⟨hheld, -⟩ := hinv.slab_of_live ha hclass
  have hok := (hinv.slabs _ hheld).deallocRemote ha ⟨by simp [hclass], rfl⟩ hinv.liveOnce
  have hcontent := hinv.content hheld (.inl rfl)
    (show ((s.headers (slabMask a.ptr)).deallocRemote a.ptr).sizeClassIndex = _ from rfl)
    (.inl rfl) hok (fun p hp => update_outside _ hp) (fun b hb _ => List.mem_of_mem_erase hb)
    (fun b hb => hinv.serves b (List.mem_of_mem_erase hb)) (hinv.erase_live a)
  refine hcontent.settle fun head hin => ?_
  have hcount := hinv.counts head _ hin (by simp)
  simp only [Function.update_self]
  exact hcount

/-- The program may write to its allocations. -/
theorem HeapInv.write (hinv : HeapInv s live lists roster handles none) (ha : a ∈ live)
    (hclass : classIndex a.layout = some c) (value : Option ℕ) :
    HeapInv { s with next := Function.update s.next a.ptr value } live lists roster
      handles none := by
  obtain ⟨hheld, -⟩ := hinv.slab_of_live ha hclass
  have hok := (hinv.slabs _ hheld).write ha ⟨by simp [hclass], rfl⟩ value
  have hcontent := hinv.content hheld (.inl rfl) rfl (.inl rfl) hok
    (fun p hp => update_outside _ hp) (fun b hb _ => hb) hinv.serves hinv.liveOnce
  rw [Function.update_eq_self] at hcontent
  exact hcontent.settle fun head hin => hinv.counts head _ hin (by simp)

/-- A held slab that carries the id of a live heap is in that heap's bin or queues, of its class. -/
theorem Ready.place_of_id (hready : Ready s live lists roster handles) (hheap : h ∈ handles)
    (hheld : s.pool.Held slab) (hid : (s.headers slab).heapId = (s.heap h).id) :
    ∃ place, slab ∈ lists place ∧ place.owner = some (h, (s.headers slab).sizeClassIndex) := by
  have hinv := hready.inv
  rcases hheld with hin | ⟨c, hin⟩
  · obtain ⟨place, hplace⟩ := (hinv.inUse slab).mp hin
    have howned : ∃ x, place.owner = some x := by
      cases place with
      | bin h c => exact ⟨_, rfl⟩
      | queue head => exact ⟨_, rfl⟩
      | hand => simp [hready.hand] at hplace
    obtain ⟨⟨h', c⟩, howner⟩ := howned
    have hbelongs := hinv.belongs place h' c howner slab hplace
    have hsame : h' = h := hinv.idsDiffer h' hbelongs.heap h (hinv.alive h hheap)
      (hbelongs.heapId.symm.trans hid)
    subst hsame
    exact ⟨place, hplace, by rw [howner, hbelongs.classIdx]⟩
  · exact absurd hid ((hinv.orphans c slab hin).noHeap h hheap)

/-- Of the slabs with a heap's id, those that are not active are queued. -/
theorem Ready.queue_of_id (hready : Ready s live lists roster handles) (hheap : h ∈ handles)
    (hheld : s.pool.Held slab) (hid : (s.headers slab).heapId = (s.heap h).id)
    (hclass : (s.headers slab).sizeClassIndex = c) (hactive : (s.heap h).bins c ≠ some slab) :
    ∃ queue, slab ∈ lists (.queue ⟨h, queue, c⟩) := by
  obtain ⟨place, hplace, howner⟩ := hready.place_of_id hheap hheld hid
  rw [hclass] at howner
  cases place with
  | bin h' c' =>
    obtain ⟨rfl, rfl⟩ : h' = h ∧ c' = c := by simpa [SlabPlace.owner] using howner
    exact absurd (hready.inv.mem_bin.mp hplace) hactive
  | queue head =>
    obtain ⟨h', queue, c'⟩ := head
    obtain ⟨rfl, rfl⟩ : h' = h ∧ c' = c := by simpa [SlabPlace.owner] using howner
    exact ⟨queue, hplace⟩
  | hand => simp [SlabPlace.owner] at howner

/-- Freed into, a queued slab leaves the full queue with one slot available, and keeps its place in
the partial one. -/
theorem Queue.CountOk.freed {queue : Queue} {header header' : SlabHeader}
    (hcount : queue.CountOk header) (hfreed : header'.freeCount = header.freeCount + 1) :
    header'.freeCount = 1 ↔ queue = .full := by
  cases queue with
  | full =>
    simp only [Queue.CountOk] at hcount
    simp only [iff_true]
    omega
  | part =>
    have hpos := hcount.1
    simp only [reduceCtorEq, iff_false]
    omega

/-- A free into a queued slab of the heap ends: the slab is cached, promoted, or stays. -/
theorem Ready.deallocOwn (hready : Ready s live lists roster handles) (ha : a ∈ live)
    (hclass : classIndex a.layout = some c) {queue : Queue}
    (hslab : slabMask a.ptr ∈ lists (.queue ⟨h, queue, c⟩)) :
    ∃ s' lists', s.deallocOwn h c (slabMask a.ptr) a.ptr = .ok s' ∧
      Ready s' (live.erase a) lists' roster handles := by
  have hinv := hready.inv
  obtain ⟨hinv₁, hfreed⟩ := hinv.deallocLocal ha hclass
  have hqueue := (hinv.counts _ _ hslab (by simp)).freed hfreed
  have hbelongs₁ : (s.deallocLocal (slabMask a.ptr) a.ptr).Belongs roster h c (slabMask a.ptr) := by
    have hbelongs := hinv.belongs (.queue ⟨h, queue, c⟩) h c rfl _ hslab
    exact ⟨hbelongs.heap, hbelongs.range,
      by simpa [HeapSys.deallocLocal, SlabHeader.deallocLocal] using hbelongs.classIdx,
      by simpa [HeapSys.deallocLocal, SlabHeader.deallocLocal] using hbelongs.heapId⟩
  unfold HeapSys.deallocOwn
  generalize s.deallocLocal (slabMask a.ptr) a.ptr = s₁ at *
  dsimp only at hqueue ⊢
  by_cases hfree : (s₁.headers (slabMask a.ptr)).isFullyFree = true
  · rw [if_pos hfree]
    obtain ⟨links, hremove, hinv₂, -, -⟩ := hinv₁.slabListRemove hslab (.inr rfl)
    obtain ⟨pool, hcache, hinv₃⟩ := hinv₂.cacheSlab mem_hand_transfer hfree
    refine ⟨_, _, by simp only [HeapSys.reclaimSlab, hremove, hcache, bind, Except.bind], hinv₃, ?_⟩
    rw [withHand_hand]
    exact hand_erase_transfer hready.hand
  · rw [if_neg hfree]
    have hpart := hinv₁.countOk_part (hinv₁.held hslab) (by simpa using hfree) (by omega)
    by_cases hone : (s₁.headers (slabMask a.ptr)).freeCount = 1
    · rw [if_pos hone]
      obtain ⟨links, hremove, hinv₂, hlinks⟩ := hinv₁.slabListRemove hslab (.inr rfl)
      have hinv₃ := hinv₂.promote (h := h) (c := c) mem_hand_transfer
        (hbelongs₁.congr rfl rfl) hpart hlinks
      refine ⟨_, _, by simp only [hremove, bind, Except.bind], hinv₃, hand_transfer hready.hand ?_⟩
      exact HeapSys.promoteTo_ne_hand _ h c
    · rw [if_neg hone]
      refine ⟨s₁, lists, rfl, hinv₁.settle fun head hin => ?_, hready.hand⟩
      have hplace := hinv.separate.unique hin hslab
      rw [SlabPlace.queue.injEq] at hplace
      subst hplace
      cases queue with
      | full => exact absurd (hqueue.mpr rfl) hone
      | part => exact hpart

/-- `Heap::dealloc` of a live allocation ends. -/
theorem Ready.dealloc (hready : Ready s live lists roster handles) (hheap : h ∈ handles)
    (ha : a ∈ live) :
    ∃ s' lists', s.dealloc h a.ptr a.layout = .ok s' ∧
      Ready s' (live.erase a) lists' roster handles := by
  unfold HeapSys.dealloc
  cases hclass : classIndex a.layout with
  | none =>
    have hcounted := hready.inv.count h (·.onLargeDealloc a.layout.size)
    exact ⟨_, lists, rfl, hcounted.deallocLarge ha hclass, hready.hand⟩
  | some c =>
    have hcounted := hready.count h (·.onDealloc c (classSize c))
    dsimp only
    generalize s.count h (·.onDealloc c (classSize c)) = s₁ at *
    obtain ⟨hheld, hslab⟩ := hcounted.inv.slab_of_live ha hclass
    by_cases hactive : (s₁.heap h).bins c = some (slabMask a.ptr)
    · rw [if_pos hactive]
      have hmem := hcounted.inv.mem_bin.mpr hactive
      have hsettled := (hcounted.inv.deallocLocal ha hclass).1.settle_of_notMem fun head hin => by
        have := hcounted.inv.separate.unique hin hmem
        simp at this
      exact ⟨_, lists, rfl, hsettled, hready.hand⟩
    · rw [if_neg hactive]
      by_cases hid : (s₁.headers (slabMask a.ptr)).heapId = (s₁.heap h).id
      · rw [if_pos hid]
        obtain ⟨queue, hqueue⟩ := hcounted.queue_of_id hheap hheld hid hslab hactive
        exact hcounted.deallocOwn ha hclass hqueue
      · rw [if_neg hid]
        exact ⟨_, lists, rfl, (hcounted.inv.count h _).deallocRemote ha hclass, hready.hand⟩

end ClMalloc
