import ClMalloc.PoolGauges
import ClMalloc.PoolBooks
import ClMalloc.Lib.Checked

/-!
# The critical sections with every check that can panic

The same sections again, with the checks the language and the source make: arithmetic that
must not overflow, indices that must be in bounds, assertions and the `unreachable!` of
`find_segment`. A section has no result when a check fails, which is a panic under the lock.
Where every check passes, a section does what its model without checks does.
-/

namespace ClMalloc

open Checked

/-- One more than the largest `u64` or `usize`. -/
def wordLimit : ℕ := 0x10000000000000000

/-- `push`. -/
def PageFreeList.pushChecked (l : PageFreeList) (slab : ℕ) : Option PageFreeList := do
  let len ← add wordLimit l.len 1
  some ⟨slab :: l.pages, len⟩

/-- `pop`. -/
def PageFreeList.popChecked (l : PageFreeList) : Option (Option (ℕ × PageFreeList)) :=
  match l.pages with
  | [] => some none
  | slab :: rest => do
    let len ← sub l.len 1
    some (some (slab, ⟨rest, len⟩))

/-- The walk of `remove_if`. -/
def removeIfWalkChecked (pred : ℕ → Bool) : List ℕ → ℕ → Option (List ℕ × ℕ)
  | [], len => some ([], len)
  | slab :: rest, len =>
    if pred slab then do
      let len ← sub len 1
      removeIfWalkChecked pred rest len
    else do
      let tail ← removeIfWalkChecked pred rest len
      some (slab :: tail.1, tail.2)

/-- `remove_if`. -/
def PageFreeList.removeIfChecked (l : PageFreeList) (pred : ℕ → Bool) : Option PageFreeList := do
  let walked ← removeIfWalkChecked pred l.pages l.len
  some ⟨walked.1, walked.2⟩

/-- Count one acquisition of the lock. -/
def PoolState.countLockChecked (st : PoolState) : Option PoolState := do
  let count ← add wordLimit st.metrics.poolLockCount 1
  some { st with metrics := { st.metrics with poolLockCount := count } }

/-- Whether the address is in the segment; its end is computed only for an address not below it. -/
def inSegmentChecked (base addr : ℕ) : Option Bool :=
  if base ≤ addr then (add wordLimit base segmentSize).map fun segEnd => decide (addr < segEnd)
    else some false

/-- The loop of `find_segment` over the rest of the table. -/
def findSegmentFrom (st : PoolState) (addr : ℕ) : List ℕ → Option ℕ
  | [] => none
  | i :: rest => do
    require (i < maxSegments)
    let found ← inSegmentChecked (st.segments i) addr
    if found then some i else findSegmentFrom st addr rest

/-- `find_segment`. -/
def findSegmentChecked (st : PoolState) (addr : ℕ) : Option ℕ :=
  findSegmentFrom st addr (List.range st.segmentCount)

/-- `segment_fully_carved`. -/
def segmentFullyCarvedChecked (st : PoolState) (segIdx : ℕ) : Option Bool := do
  require (segIdx < maxSegments)
  let segEnd ← add wordLimit (st.segments segIdx) segmentSize
  some !(decide (st.segments segIdx ≤ st.segmentCursor) && decide (st.segmentCursor < segEnd))

/-- `remove_segment_slabs`. -/
def removeSegmentSlabsChecked (st : PoolState) (segBase : ℕ) : Option PoolState := do
  let segEnd ← add wordLimit segBase segmentSize
  let dirty ← st.dirtyList.removeIfChecked fun addr => decide (segBase ≤ addr) &&
    decide (addr < segEnd)
  let clean ← st.cleanList.removeIfChecked fun addr => decide (segBase ≤ addr) &&
    decide (addr < segEnd)
  some { st with dirtyList := dirty, cleanList := clean }

/-- `swap_remove_segment`. -/
def swapRemoveSegmentChecked (st : PoolState) (segIdx : ℕ) : Option PoolState := do
  let last ← sub st.segmentCount 1
  if segIdx ≠ last then
    require (segIdx < maxSegments ∧ last < maxSegments)
  require (last < maxSegments)
  some (swapRemoveSegment st segIdx)

/-- `seg_outstanding[seg] += 1`. -/
def PoolState.incOutstandingChecked (st : PoolState) (seg : ℕ) : Option PoolState := do
  require (seg < maxSegments)
  let count ← add 256 (st.segOutstanding seg) 1
  some { st with segOutstanding := Function.update st.segOutstanding seg count }

/-- `seg_outstanding[seg] -= 1`. -/
def PoolState.decOutstandingChecked (st : PoolState) (seg : ℕ) : Option PoolState := do
  require (seg < maxSegments)
  let count ← sub (st.segOutstanding seg) 1
  some { st with segOutstanding := Function.update st.segOutstanding seg count }

/-- The free page `alloc_slab` takes first. -/
def popFreeChecked (st : PoolState) : Option (Option (ℕ × PoolState)) := do
  match ← st.dirtyList.popChecked with
  | some (slab, rest) => some (some (slab, { st with dirtyList := rest }))
  | none =>
    match ← st.cleanList.popChecked with
    | some (slab, rest) => some (some (slab, { st with cleanList := rest }))
    | none => some none

/-- The critical section of `alloc_slab`. -/
def allocSlabChecked (st : PoolState) : Option (PoolState × Option ℕ) := do
  let st ← st.countLockChecked
  match ← popFreeChecked st with
  | some (slab, st) =>
    let seg ← findSegmentChecked st slab
    let st ← st.incOutstandingChecked seg
    let slabs ← add wordLimit st.outstandingSlabs 1
    some ({ st with outstandingSlabs := slabs }, some slab)
  | none =>
    if st.segmentCursor < st.segmentEnd then
      let slab := st.segmentCursor
      let st ← ({ st with segmentCursor := slab + slabSize } : PoolState).incOutstandingChecked
        st.carvingIdx
      let slabs ← add wordLimit st.outstandingSlabs 1
      some ({ st with outstandingSlabs := slabs }, some slab)
    else some (st, none)

/-- The critical section of `alloc_slab_slow`. -/
def allocSlabSlowChecked (st : PoolState) (base : ℕ) : Option (PoolState × Option ℕ) := do
  let st ← st.countLockChecked
  let mmaps ← add wordLimit st.metrics.segmentMmapCount 1
  let st := { st with metrics := { st.metrics with segmentMmapCount := mmaps } }
  if maxSegments ≤ st.segmentCount then some (st, none)
  else
    let segIdx := st.segmentCount
    require (segIdx < maxSegments)
    let count ← add wordLimit segIdx 1
    let slabs ← add wordLimit st.outstandingSlabs 1
    let st := { st with
      segments := Function.update st.segments segIdx base
      segmentCount := count
      segOutstanding := Function.update st.segOutstanding segIdx 1
      outstandingSlabs := slabs }
    if st.segmentCursor < st.segmentEnd then
      let clean ← (List.range' 1 (slabsPerSegment - 1)).reverse.foldlM
        (fun l i => l.pushChecked (base + i * slabSize)) st.cleanList
      some ({ st with cleanList := clean }, some base)
    else
      some ({ st with
        carvingIdx := segIdx
        segmentCursor := base + slabSize
        segmentEnd := base + segmentSize }, some base)

/-- Whether `dealloc_slab` releases the segment; the cursor is compared only when no page is out. -/
def releasesChecked (st : PoolState) (seg : ℕ) : Option Bool :=
  if st.segOutstanding seg = 0 then segmentFullyCarvedChecked st seg else some false

/-- The rest of the section of `dealloc_slab`, after the page is uncounted. -/
def deallocRestChecked (st : PoolState) (seg : ℕ) : Option (PoolState × DeallocOutcome) := do
  let releases ← releasesChecked st seg
  if releases then
    let segmentPtr := st.segments seg
    let st ← removeSegmentSlabsChecked st segmentPtr
    let st ← swapRemoveSegmentChecked st seg
    let munmaps ← add wordLimit st.metrics.segmentMunmapCount 1
    some ({ st with metrics := { st.metrics with segmentMunmapCount := munmaps } },
      .release segmentPtr)
  else if purgeHighWater < st.dirtyList.len then some (st, .purge)
  else some (st, .done)

/-- The critical section of `dealloc_slab`. -/
def deallocSlabChecked (st : PoolState) (slab : ℕ) : Option (PoolState × DeallocOutcome) := do
  let st ← st.countLockChecked
  let dirty ← st.dirtyList.pushChecked slab
  let st := { st with dirtyList := dirty }
  let seg ← findSegmentChecked st slab
  let st ← st.decOutstandingChecked seg
  let slabs ← sub st.outstandingSlabs 1
  deallocRestChecked { st with outstandingSlabs := slabs } seg

/-- The loop of the first section of `purge_excess`. -/
def purgeTakeLoopChecked : ℕ → PoolState → List ℕ → Option (PoolState × List ℕ)
  | 0, st, buf => some (st, buf)
  | room + 1, st, buf =>
    if purgeLowWater < st.dirtyList.len then do
      match ← st.dirtyList.popChecked with
      | some (slab, rest) =>
        let st := { st with dirtyList := rest }
        let seg ← findSegmentChecked st slab
        let st ← st.incOutstandingChecked seg
        require (buf.length < purgeBatch)
        purgeTakeLoopChecked room st (buf ++ [slab])
      | none => some (st, buf)
    else some (st, buf)

/-- The first critical section of `purge_excess`. -/
def purgeTakeChecked (st : PoolState) : Option (PoolState × List ℕ) := do
  let st ← st.countLockChecked
  purgeTakeLoopChecked purgeBatch st []

/-- The loop of the second section of `purge_excess`. -/
def purgeReturnLoopChecked : List ℕ → PoolState → Option PoolState
  | [], st => some st
  | slab :: rest, st => do
    let seg ← findSegmentChecked st slab
    let st ← st.decOutstandingChecked seg
    let clean ← st.cleanList.pushChecked slab
    purgeReturnLoopChecked rest { st with cleanList := clean }

/-- The second critical section of `purge_excess`. -/
def purgeReturnChecked (st : PoolState) (buf : List ℕ) : Option PoolState := do
  let st ← st.countLockChecked
  let purges ← add wordLimit st.metrics.slabPurgeCount buf.length
  purgeReturnLoopChecked buf { st with metrics := { st.metrics with slabPurgeCount := purges } }

/-- The critical section of `alloc_large`. -/
def allocLargeChecked (st : PoolState) (size : ℕ) : Option PoolState := do
  let bytes ← add wordLimit st.largeMappedBytes size
  some { st with largeMappedBytes := bytes }

/-- The critical section of `dealloc_large`. -/
def deallocLargeChecked (st : PoolState) (size : ℕ) : Option PoolState := do
  let bytes ← sub st.largeMappedBytes size
  some { st with largeMappedBytes := bytes }

/-- The critical section of `abandon_slab`. -/
def abandonSlabChecked (st : PoolState) (classIdx : ℕ) : Option PoolState := do
  require (classIdx < numClasses)
  let count ← add wordLimit (st.metrics.abandonCount classIdx) 1
  some { st with metrics := { st.metrics with
    abandonCount := Function.update st.metrics.abandonCount classIdx count } }

/-- The critical section of `inc_adopt_count`. -/
def incAdoptCountChecked (st : PoolState) (classIdx : ℕ) : Option PoolState := do
  require (classIdx < numClasses)
  let count ← add wordLimit (st.metrics.adoptCount classIdx) 1
  some { st with metrics := { st.metrics with
    adoptCount := Function.update st.metrics.adoptCount classIdx count } }

/-- The counters that `accumulate` and `accumulate_heap` add. -/
def summedCounters : List Counter :=
  [.allocBytes, .freeBytes, .remoteFreeCount, .largeAllocCount, .largeAllocBytes,
    .largeDeallocBytes] ++
    (List.range numClasses).flatMap fun i =>
      [.classAllocCount i, .classDeallocCount i, .classAllocBytes i, .classFreeBytes i]

/-- `register_heap`. -/
def PoolMetrics.registerHeapChecked (m : PoolMetrics) (heaps : ℕ → HeapMetrics) (ptr : ℕ) :
    Option (PoolMetrics × (ℕ → HeapMetrics)) := do
  require (m.heapCount < maxHeaps)
  let idx := m.heapCount
  require (idx < maxHeaps)
  let count ← add wordLimit m.heapCount 1
  some ({ m with heapPtrs := Function.update m.heapPtrs idx (some ptr), heapCount := count },
    Function.update heaps ptr ((heaps ptr).storeRegistryIdx idx))

/-- `deregister_heap`. -/
def PoolMetrics.deregisterHeapChecked (m : PoolMetrics) (heaps : ℕ → HeapMetrics) (ptr : ℕ) :
    Option (PoolMetrics × (ℕ → HeapMetrics)) := do
  let idx := (heaps ptr).registryIdx
  require (idx < maxHeaps)
  require (m.heapPtrs idx = some ptr)
  require (∀ k ∈ summedCounters, m.dead.counter k + (heaps ptr).counter k < wordLimit)
  let last ← sub m.heapCount 1
  require (last < maxHeaps)
  m.deregisterHeap heaps ptr

/-- The loop of `aggregate_heap_metrics`. -/
def PoolMetrics.aggregateEntryChecked (m : PoolMetrics) (heaps : ℕ → HeapMetrics)
    (snapshot : MetricsSnapshot) (i : ℕ) :
    Option MetricsSnapshot := do
  require (i < maxHeaps)
  let ptr ← m.heapPtrs i
  require (∀ k ∈ summedCounters, snapshot.counter k + (heaps ptr).counter k < wordLimit)
  some (snapshot.accumulateHeap (heaps ptr))

/-- The part of `snapshot` that runs under the lock. -/
def snapshotChecked (st : PoolState) (heaps : ℕ → HeapMetrics) : Option MetricsSnapshot := do
  require (st.segmentCount * segmentSize < wordLimit)
  let mapped ← add wordLimit (st.segmentCount * segmentSize) st.largeMappedBytes
  let snapshot := { MetricsSnapshot.new with mapped := mapped }
  require (∀ k ∈ summedCounters, snapshot.counter k + st.metrics.dead.counter k < wordLimit)
  (List.range st.metrics.heapCount).foldlM (st.metrics.aggregateEntryChecked heaps)
    (snapshot.accumulateHeap st.metrics.dead)

/-- The event counters of the pool can still count one more section. -/
structure PoolMetrics.HasRoom (m : PoolMetrics) : Prop where
  locks : m.poolLockCount + 1 < wordLimit
  mmaps : m.segmentMmapCount + 1 < wordLimit
  munmaps : m.segmentMunmapCount + 1 < wordLimit
  purges : m.slabPurgeCount + 0x20000 < wordLimit
  abandons : ∀ classIdx < numClasses, m.abandonCount classIdx + 1 < wordLimit
  adopts : ∀ classIdx < numClasses, m.adoptCount classIdx + 1 < wordLimit

/-- What the checks rely on: the accounting of the pages, segments that end in the address space,
and counters in range. -/
structure SectionSafe {T : Type} (st : PoolState) (kind : ℕ → PageKind T) : Prop where
  inv : PoolInv st kind
  ends : ∀ i < st.segmentCount, st.segments i + segmentSize < wordLimit
  slabs : st.outstandingSlabs ≤ 0x20000
  room : st.metrics.HasRoom

variable {T : Type} {st st' : PoolState} {kind : ℕ → PageKind T} {l : PageFreeList} {slab seg : ℕ}

/-- A push within range. -/
theorem PageFreeList.pushChecked_eq (h : l.len + 1 < wordLimit) :
    l.pushChecked slab = some (l.push slab) := by
  simp [PageFreeList.pushChecked, PageFreeList.push, add_eq h]

/-- Popping a list that is as long as its length field says. -/
theorem PageFreeList.popChecked_eq (h : l.len = l.pages.length) : l.popChecked = some l.pop := by
  unfold PageFreeList.popChecked PageFreeList.pop
  cases hpages : l.pages with
  | nil => rfl
  | cons slab rest =>
    have hlen : 1 ≤ l.len := by simp [h, hpages]
    simp [sub_eq hlen]

/-- The walk over a list that is at most as long as its length field says. -/
theorem removeIfWalkChecked_eq (pred : ℕ → Bool) {pages : List ℕ} {len : ℕ}
    (h : pages.length ≤ len) :
    removeIfWalkChecked pred pages len = some (removeIfWalk pred pages len) := by
  induction pages generalizing len with
  | nil => rfl
  | cons slab rest ih =>
    rw [List.length_cons] at h
    simp only [removeIfWalkChecked, removeIfWalk]
    split
    · simp [sub_eq (show 1 ≤ len by omega), ih (show rest.length ≤ len - 1 by omega)]
    · simp [ih (show rest.length ≤ len by omega)]

/-- Removing from a list that is as long as its length field says. -/
theorem PageFreeList.removeIfChecked_eq (h : l.len = l.pages.length) (pred : ℕ → Bool) :
    l.removeIfChecked pred = some (l.removeIf pred) := by
  simp [PageFreeList.removeIfChecked, PageFreeList.removeIf, removeIfWalkChecked_eq pred h.ge]

/-- The lock count has room. -/
theorem PoolState.countLockChecked_eq (h : st.metrics.HasRoom) :
    st.countLockChecked = some st.countLock := by
  simp [PoolState.countLockChecked, PoolState.countLock, add_eq h.locks]

/-- The range of a segment that ends in the address space. -/
theorem inSegmentChecked_eq {base : ℕ} (h : base + segmentSize < wordLimit) (addr : ℕ) :
    inSegmentChecked base addr = some (inSegment base addr) := by
  unfold inSegmentChecked inSegment
  rw [add_eq h, Option.map_some]
  by_cases hle : base ≤ addr <;> simp [hle]

/-- The search reads entries of the table that end in the address space. -/
theorem findSegmentFrom_eq {addr : ℕ} {indices : List ℕ}
    (h : ∀ i ∈ indices, i < maxSegments ∧ st.segments i + segmentSize < wordLimit) :
    findSegmentFrom st addr indices = indices.find? fun i => inSegment (st.segments i) addr := by
  induction indices with
  | nil => rfl
  | cons i rest ih =>
    obtain ⟨hindex, hend⟩ := h i List.mem_cons_self
    rw [findSegmentFrom, ih fun j hj => h j (List.mem_cons_of_mem _ hj), List.find?_cons,
      require_eq hindex, inSegmentChecked_eq hend]
    cases hin : inSegment (st.segments i) addr <;> simp

/-- The search stays in the table. -/
theorem SectionSafe.findSegmentChecked_eq (h : SectionSafe st kind) (st' : PoolState) (addr : ℕ)
    (hsegments : st'.segments = st.segments) (hcount : st'.segmentCount = st.segmentCount) :
    findSegmentChecked st' addr = findSegment st' addr := by
  refine findSegmentFrom_eq fun i hi => ?_
  rw [List.mem_range, hcount] at hi
  rw [hsegments]
  exact ⟨lt_of_lt_of_le hi h.inv.count_le, h.ends i hi⟩

/-- A counter below 255 can count one more. -/
theorem PoolState.incOutstandingChecked_eq (st : PoolState) (hseg : seg < maxSegments)
    (hle : st.segOutstanding seg ≤ 32) :
    st.incOutstandingChecked seg = some (st.incOutstanding seg) := by
  have hinc : u8Inc (st.segOutstanding seg) = st.segOutstanding seg + 1 :=
    Nat.mod_eq_of_lt (by omega)
  simp [PoolState.incOutstandingChecked, PoolState.incOutstanding, require_eq hseg, hinc,
    add_eq (show st.segOutstanding seg + 1 < 256 by omega)]

/-- A positive counter can count one less. -/
theorem PoolState.decOutstandingChecked_eq (st : PoolState) (hseg : seg < maxSegments)
    (hle : st.segOutstanding seg ≤ 32) (hpos : 0 < st.segOutstanding seg) :
    st.decOutstandingChecked seg = some (st.decOutstanding seg) := by
  have hdec : u8Dec (st.segOutstanding seg) = st.segOutstanding seg - 1 := by
    unfold u8Dec
    omega
  simp [PoolState.decOutstandingChecked, PoolState.decOutstanding, require_eq hseg, hdec,
    sub_eq (show 1 ≤ st.segOutstanding seg by omega)]

/-- Different registered pages are at most as many as the table can hold. -/
theorem PoolInv.pages_length_le (h : PoolInv st kind) {pages : List ℕ} (hnodup : pages.Nodup)
    (hmem : ∀ p ∈ pages, kind p ≠ .outside) : pages.length ≤ 0x20000 := by
  have hle : pages.length ≤ st.registeredPages.length :=
    (List.subperm_of_subset hnodup fun p hp => (h.mem_registeredPages p).mpr (hmem p hp)).length_le
  have hlen : st.registeredPages.length = st.segmentCount * 32 := by
    simp [PoolState.registeredPages, List.length_flatMap, segmentPages_length]
  have hcount := h.count_le
  unfold maxSegments at hcount
  omega

/-- The dirty list is short. -/
theorem PoolInv.dirty_len_le (h : PoolInv st kind) : st.dirtyList.len ≤ 0x20000 := by
  rw [h.dirty_len]
  exact h.pages_length_le h.dirty_nodup fun p hp => by simp [(h.dirty p).mp hp]

/-- The clean list is short. -/
theorem PoolInv.clean_len_le (h : PoolInv st kind) : st.cleanList.len ≤ 0x20000 := by
  rw [h.clean_len]
  exact h.pages_length_le h.clean_nodup fun p hp => by simp [(h.clean p).mp hp]

/-- A free page pops without a failed check. -/
theorem popFreeChecked_eq (st : PoolState) (hdirty : st.dirtyList.len = st.dirtyList.pages.length)
    (hclean : st.cleanList.len = st.cleanList.pages.length) :
    popFreeChecked st = some (popFree st) := by
  simp only [popFreeChecked, PageFreeList.popChecked_eq hdirty, PageFreeList.popChecked_eq hclean,
    popFree, Option.bind_eq_bind, Option.bind_some]
  cases st.dirtyList.pop with
  | some popped => rfl
  | none => cases st.cleanList.pop <;> rfl

/-- Popping a free page leaves the table. -/
theorem popFree_segments (hpop : popFree st = some (slab, st')) : st'.segments = st.segments := by
  unfold popFree at hpop
  split at hpop
  · cases hpop
    rfl
  · split at hpop <;> cases hpop
    rfl

/-- The counters that a page handed out changes have room. -/
theorem SectionSafe.slabs_lt (h : SectionSafe st kind) : st.outstandingSlabs + 1 < wordLimit := by
  have hslabs := h.slabs
  unfold wordLimit
  omega

/-- No check fails in the section of `alloc_slab`. -/
theorem SectionSafe.allocSlab (h : SectionSafe st kind) :
    allocSlabChecked st = allocSlabLocked st := by
  have hpop := popFreeChecked_eq st.countLock h.inv.dirty_len h.inv.clean_len
  simp only [allocSlabChecked, allocSlabLocked, PoolState.countLockChecked_eq h.room,
    Option.bind_eq_bind, Option.bind_some, hpop]
  cases hfree : popFree st.countLock with
  | some popped =>
    obtain ⟨slab, popped⟩ := popped
    obtain ⟨-, -, hcount, hout, hslabs⟩ := popFree_gauges hfree
    have hsegments : popped.segments = st.countLock.segments := popFree_segments hfree
    simp only [h.findSegmentChecked_eq _ slab hsegments hcount]
    cases hfind : findSegment popped slab with
    | none => rfl
    | some seg =>
      have hseg : seg < st.segmentCount := hcount ▸ findSegment_lt hfind
      have hinc := PoolState.incOutstandingChecked_eq popped (lt_of_lt_of_le hseg h.inv.count_le)
        (by rw [hout]; exact h.inv.segOutstanding_le hseg)
      have hroom : (popped.incOutstanding seg).outstandingSlabs + 1 < wordLimit := by
        change popped.outstandingSlabs + 1 < wordLimit
        rw [hslabs]
        exact h.slabs_lt
      simp only [hinc, Option.bind_some, add_eq hroom]
      rfl
  | none =>
    by_cases hcursor : st.segmentCursor < st.segmentEnd
    · obtain ⟨hseg, -⟩ := h.inv.carving hcursor
      have hinc := PoolState.incOutstandingChecked_eq
        { st.countLock with segmentCursor := st.segmentCursor + slabSize }
        (lt_of_lt_of_le hseg h.inv.count_le) (h.inv.segOutstanding_le hseg)
      have hcursor' : st.countLock.segmentCursor < st.countLock.segmentEnd := hcursor
      simp only [hcursor', if_true]
      refine (congrArg (Option.bind · _) hinc).trans ?_
      rw [Option.bind_some]
      refine (congrArg (Option.bind · _) (add_eq (show _ < wordLimit from h.slabs_lt))).trans ?_
      rfl
    · have hcursor' : ¬st.countLock.segmentCursor < st.countLock.segmentEnd := hcursor
      simp only [hcursor', if_false]

/-- Pushing a segment's pages within range. -/
theorem foldlM_pushChecked {indices : List ℕ} {base : ℕ} (h : l.len + indices.length < wordLimit) :
    indices.foldlM (fun l i => l.pushChecked (base + i * slabSize)) l =
      some (indices.foldl (fun l i => l.push (base + i * slabSize)) l) := by
  induction indices generalizing l with
  | nil => rfl
  | cons i rest ih =>
    rw [List.length_cons] at h
    rw [List.foldlM_cons, List.foldl_cons, PageFreeList.pushChecked_eq (by omega)]
    refine ih ?_
    change l.len + 1 + rest.length < wordLimit
    omega

/-- No check fails in the section of `alloc_slab_slow`. -/
theorem SectionSafe.allocSlabSlow (h : SectionSafe st kind) (base : ℕ) :
    allocSlabSlowChecked st base = some (allocSlabSlowLocked st base) := by
  have hmmaps : st.countLock.metrics.segmentMmapCount + 1 < wordLimit := h.room.mmaps
  simp only [allocSlabSlowChecked, allocSlabSlowLocked, PoolState.countLockChecked_eq h.room,
    Option.bind_eq_bind, Option.bind_some, add_eq hmmaps]
  by_cases hfull : maxSegments ≤ st.segmentCount
  · have hfull' : maxSegments ≤ st.countLock.segmentCount := hfull
    simp only [hfull', if_true]
    rfl
  · have hfull' : ¬maxSegments ≤ st.countLock.segmentCount := hfull
    have hroom : st.countLock.segmentCount < maxSegments := not_le.mp hfull'
    have hcount : st.countLock.segmentCount + 1 < wordLimit := by
      unfold maxSegments at hroom
      unfold wordLimit
      omega
    have hslabs : st.countLock.outstandingSlabs + 1 < wordLimit := h.slabs_lt
    simp only [hfull', if_false, require_eq hroom, Option.bind_some, add_eq hcount, add_eq hslabs]
    by_cases hcursor : st.segmentCursor < st.segmentEnd
    · have hcursor' : st.countLock.segmentCursor < st.countLock.segmentEnd := hcursor
      have hclean : st.countLock.cleanList.len +
          (List.range' 1 (slabsPerSegment - 1)).reverse.length < wordLimit := by
        have hle : st.countLock.cleanList.len ≤ 0x20000 := h.inv.clean_len_le
        have hlen : (List.range' 1 (slabsPerSegment - 1)).reverse.length = 31 := by decide
        rw [hlen]
        unfold wordLimit
        omega
      simp only [hcursor', if_true, foldlM_pushChecked hclean, Option.bind_some, pushSegmentSlabs]
      rfl
    · have hcursor' : ¬st.countLock.segmentCursor < st.countLock.segmentEnd := hcursor
      simp only [hcursor', if_false]
      rfl

/-- The range of a segment that ends in the address space. -/
theorem segmentFullyCarvedChecked_eq (hseg : seg < maxSegments)
    (hend : st.segments seg + segmentSize < wordLimit) :
    segmentFullyCarvedChecked st seg = some (segmentFullyCarved st seg) := by
  simp [segmentFullyCarvedChecked, segmentFullyCarved, inSegment, require_eq hseg, add_eq hend]

/-- Unlinking the pages of a segment that ends in the address space. -/
theorem removeSegmentSlabsChecked_eq {segBase : ℕ} (hend : segBase + segmentSize < wordLimit)
    (hdirty : st.dirtyList.len = st.dirtyList.pages.length)
    (hclean : st.cleanList.len = st.cleanList.pages.length) :
    removeSegmentSlabsChecked st segBase = some (removeSegmentSlabs st segBase) := by
  simp only [removeSegmentSlabsChecked, add_eq hend, Option.bind_eq_bind, Option.bind_some,
    PageFreeList.removeIfChecked_eq hdirty, PageFreeList.removeIfChecked_eq hclean]
  rfl

/-- Removing a registered segment. -/
theorem swapRemoveSegmentChecked_eq (st : PoolState) (hseg : seg < st.segmentCount)
    (hcount : st.segmentCount ≤ maxSegments) :
    swapRemoveSegmentChecked st seg = some (swapRemoveSegment st seg) := by
  have hlast : st.segmentCount - 1 < maxSegments := by omega
  have hboth : seg < maxSegments ∧ st.segmentCount - 1 < maxSegments := ⟨by omega, hlast⟩
  by_cases hne : seg = st.segmentCount - 1
  · simp [swapRemoveSegmentChecked, sub_eq (show 1 ≤ st.segmentCount by omega),
      require_eq hlast, hne]
  · simp [swapRemoveSegmentChecked, sub_eq (show 1 ≤ st.segmentCount by omega), require_eq hlast,
      require_eq hboth, hne]

/-- No check fails after the page is uncounted. -/
theorem deallocRestChecked_eq (hseg : seg < st.segmentCount)
    (hcount : st.segmentCount ≤ maxSegments) (hend : st.segments seg + segmentSize < wordLimit)
    (hdirty : st.dirtyList.len = st.dirtyList.pages.length)
    (hclean : st.cleanList.len = st.cleanList.pages.length)
    (hmunmaps :
      (swapRemoveSegment (removeSegmentSlabs st (st.segments seg)) seg).metrics.segmentMunmapCount +
        1 < wordLimit) :
    deallocRestChecked st seg =
      if st.segOutstanding seg = 0 ∧ segmentFullyCarved st seg = true then
        let removed := swapRemoveSegment (removeSegmentSlabs st (st.segments seg)) seg
        some ({ removed with
          metrics := { removed.metrics with
            segmentMunmapCount := removed.metrics.segmentMunmapCount + 1 } },
          .release (st.segments seg))
      else if purgeHighWater < st.dirtyList.len then some (st, .purge)
      else some (st, .done) := by
  have hreleases : releasesChecked st seg = some (decide (st.segOutstanding seg = 0) &&
      segmentFullyCarved st seg) := by
    unfold releasesChecked
    by_cases hzero : st.segOutstanding seg = 0
    · simp [hzero, segmentFullyCarvedChecked_eq (lt_of_lt_of_le hseg hcount) hend]
    · simp [hzero]
  have hremove := removeSegmentSlabsChecked_eq hend hdirty hclean
  have hswap := swapRemoveSegmentChecked_eq (removeSegmentSlabs st (st.segments seg)) hseg hcount
  simp only [deallocRestChecked, hreleases, Option.bind_eq_bind, Option.bind_some, hremove, hswap,
    add_eq hmunmaps, Bool.and_eq_true, decide_eq_true_eq]

/-- No check fails in the section of `dealloc_slab` for a page that is out while pages are counted
as handed out. -/
theorem SectionSafe.deallocSlab (h : SectionSafe st kind) {tag : T} (hkind : kind slab = .out tag)
    (hpos : 0 < st.outstandingSlabs) : deallocSlabChecked st slab = deallocSlabLocked st slab := by
  obtain ⟨seg, hseg, hmem⟩ := h.inv.exists_segment (p := slab) (by simp [hkind])
  have hindex : seg < maxSegments := lt_of_lt_of_le hseg h.inv.count_le
  have hfind := h.inv.findSegment_eq { st.countLock with
    dirtyList := st.dirtyList.push slab } rfl rfl hseg hmem
  have hfindChecked := (h.findSegmentChecked_eq { st.countLock with
    dirtyList := st.dirtyList.push slab } slab
    rfl rfl).trans hfind
  have hpush : st.countLock.dirtyList.pushChecked slab = some (st.dirtyList.push slab) := by
    refine PageFreeList.pushChecked_eq (l := st.dirtyList) ?_
    have hle := h.inv.dirty_len_le
    unfold wordLimit
    omega
  have hdec := PoolState.decOutstandingChecked_eq { st.countLock with
    dirtyList := st.dirtyList.push slab } hindex
    (h.inv.segOutstanding_le hseg) (h.inv.segOutstanding_pos hseg hkind hmem)
  have hslabs :
      sub (PoolState.decOutstanding { st.countLock with
        dirtyList := st.dirtyList.push slab } seg).outstandingSlabs 1 =
      some (st.outstandingSlabs - 1) := sub_eq hpos
  have hrest : deallocSlabChecked st slab = deallocRestChecked (returnedPage st slab seg) seg := by
    simp only [deallocSlabChecked, PoolState.countLockChecked_eq h.room, Option.bind_eq_bind,
      Option.bind_some, hpush, hfindChecked, hdec, hslabs]
    rfl
  have hmunmaps : (swapRemoveSegment (removeSegmentSlabs (returnedPage st slab seg)
    (st.segments seg)) seg).metrics.segmentMunmapCount +
      1 < wordLimit := by
    obtain ⟨-, -, -, hmetrics⟩ :=
      swapRemoveSegment_gauges (removeSegmentSlabs (returnedPage st slab seg) (st.segments seg)) seg
    rw [hmetrics]
    exact h.room.munmaps
  rw [hrest, deallocSlabLocked_eq hfind]
  exact deallocRestChecked_eq hseg h.inv.count_le (h.ends seg hseg)
    (congrArg (· + 1) h.inv.dirty_len) h.inv.clean_len
    hmunmaps

/-- No check fails while pages are moved to the purge buffer. -/
theorem purgeTakeLoopChecked_eq (h : PoolInv st kind) (tag : T)
    (hends : ∀ i < st.segmentCount, st.segments i + segmentSize < wordLimit)
    {room : ℕ} {buf : List ℕ} (hbuf : buf.length + room ≤ purgeBatch) :
    purgeTakeLoopChecked room st buf = purgeTakeLoop room st buf := by
  induction room generalizing st kind buf with
  | zero => rfl
  | succ room ih =>
    unfold purgeTakeLoopChecked purgeTakeLoop
    split
    · simp only [PageFreeList.popChecked_eq h.dirty_len, Option.bind_eq_bind, Option.bind_some]
      cases hd : st.dirtyList.pages with
      | nil => simp [PageFreeList.pop, hd]
      | cons slab rest =>
        have hkind : kind slab = .dirty := (h.dirty slab).mp (by simp [hd])
        obtain ⟨i, hi, hmem⟩ := h.exists_segment (p := slab) (by simp [hkind])
        have hindex : i < maxSegments := lt_of_lt_of_le hi h.count_le
        have hfind := h.findSegment_eq ({ st with
          dirtyList := ⟨rest, st.dirtyList.len - 1⟩ }) rfl rfl hi hmem
        have hfindChecked : findSegmentChecked { st with
            dirtyList := ⟨rest, st.dirtyList.len - 1⟩ } slab = some i := by
          rw [← hfind]
          refine findSegmentFrom_eq fun j hj => ?_
          have hj' := List.mem_range.mp hj
          exact ⟨lt_of_lt_of_le hj' h.count_le, hends j hj'⟩
        have hinc := PoolState.incOutstandingChecked_eq { st with
          dirtyList := ⟨rest, st.dirtyList.len - 1⟩ } hindex (h.segOutstanding_le hi)
        have hlen : buf.length < purgeBatch := by omega
        simp only [PageFreeList.pop, hd, hfind, hfindChecked, Option.bind_some,
          hinc, require_eq hlen]
        exact ih (h.takeDirty tag hd hi hmem) hends
          (by rw [List.length_append, List.length_singleton]; omega)
    · rfl

/-- No check fails in the first section of `purge_excess`. -/
theorem SectionSafe.purgeTake (h : SectionSafe st kind) (tag : T) :
    purgeTakeChecked st = purgeTakeLocked st := by
  simp only [purgeTakeChecked, purgeTakeLocked, PoolState.countLockChecked_eq h.room,
    Option.bind_eq_bind, Option.bind_some]
  exact purgeTakeLoopChecked_eq (h.inv.withCounters _ _ st.countLock.metrics) tag h.ends (by simp)

/-- No check fails while the purged pages are handed to the clean list. -/
theorem purgeReturnLoopChecked_eq (h : PoolInv st kind)
    (hends : ∀ i < st.segmentCount, st.segments i + segmentSize < wordLimit)
    {buf : List ℕ} (hnodup : buf.Nodup) (hout : ∀ p ∈ buf, ∃ tag, kind p = .out tag) :
    purgeReturnLoopChecked buf st = purgeReturnLoop buf st := by
  induction buf generalizing st kind with
  | nil => rfl
  | cons slab rest ih =>
    obtain ⟨hnew, hrest⟩ := List.nodup_cons.mp hnodup
    obtain ⟨tag, hkind⟩ := hout slab List.mem_cons_self
    obtain ⟨i, hi, hmem⟩ := h.exists_segment (p := slab) (by simp [hkind])
    have hfind := h.findSegment_eq st rfl rfl hi hmem
    have hfindChecked : findSegmentChecked st slab = some i := by
      rw [← hfind]
      refine findSegmentFrom_eq fun j hj => ?_
      have hj' := List.mem_range.mp hj
      exact ⟨lt_of_lt_of_le hj' h.count_le, hends j hj'⟩
    have hdec := PoolState.decOutstandingChecked_eq _ (lt_of_lt_of_le hi h.count_le)
      (h.segOutstanding_le hi)
      (h.segOutstanding_pos hi hkind hmem)
    have hpush : (st.decOutstanding i).cleanList.pushChecked slab =
        some (st.cleanList.push slab) := by
      refine PageFreeList.pushChecked_eq (l := st.cleanList) ?_
      have hle := h.clean_len_le
      unfold wordLimit
      omega
    simp only [purgeReturnLoopChecked, purgeReturnLoop, hfind, hfindChecked, Option.bind_eq_bind,
      Option.bind_some, hdec, hpush]
    exact ih (h.putClean hkind hi hmem) hends hrest fun p hp => by
      rw [Function.update_of_ne (ne_of_mem_of_not_mem hp hnew)]
      exact hout p (List.mem_cons_of_mem _ hp)

/-- No check fails in the second section of `purge_excess`. -/
theorem SectionSafe.purgeReturn (h : SectionSafe st kind) {buf : List ℕ} (hnodup : buf.Nodup)
    (hout : ∀ p ∈ buf, ∃ tag, kind p = .out tag) :
    purgeReturnChecked st buf = purgeReturnLocked st buf := by
  have hlen : buf.length ≤ 0x20000 := h.inv.pages_length_le hnodup fun p hp => by
    obtain ⟨tag, hkind⟩ := hout p hp
    simp [hkind]
  have hpurges : st.countLock.metrics.slabPurgeCount + buf.length < wordLimit :=
    lt_of_le_of_lt (Nat.add_le_add_left hlen _) h.room.purges
  simp only [purgeReturnChecked, purgeReturnLocked, PoolState.countLockChecked_eq h.room,
    Option.bind_eq_bind, Option.bind_some, add_eq hpurges]
  exact purgeReturnLoopChecked_eq (h.inv.withCounters _ _ { st.countLock.metrics with
    slabPurgeCount := st.metrics.slabPurgeCount + buf.length }) h.ends hnodup hout

/-- No check fails in the section of `abandon_slab`. -/
theorem PoolMetrics.HasRoom.abandonSlab (h : st.metrics.HasRoom) {classIdx : ℕ}
    (hclass : classIdx < numClasses) :
    abandonSlabChecked st classIdx = some (abandonSlabLocked st classIdx) := by
  simp [abandonSlabChecked, abandonSlabLocked, addAt, require_eq hclass,
    add_eq (h.abandons classIdx hclass)]

/-- No check fails in the section of `inc_adopt_count`. -/
theorem PoolMetrics.HasRoom.incAdoptCount (h : st.metrics.HasRoom) {classIdx : ℕ}
    (hclass : classIdx < numClasses) :
    incAdoptCountChecked st classIdx = some (incAdoptCountLocked st classIdx) := by
  simp [incAdoptCountChecked, incAdoptCountLocked, addAt, require_eq hclass,
    add_eq (h.adopts classIdx hclass)]

/-- Registering a heap fails no check while the registry has room. -/
theorem PoolMetrics.registerHeapChecked_eq {m : PoolMetrics} {heaps : ℕ → HeapMetrics} {ptr : ℕ}
    (hroom : m.heapCount < maxHeaps) :
    m.registerHeapChecked heaps ptr = m.registerHeap heaps ptr := by
  have hcount : m.heapCount + 1 < wordLimit := by
    unfold maxHeaps at hroom
    unfold wordLimit
    omega
  rw [PoolMetrics.registerHeap, if_pos hroom]
  simp [PoolMetrics.registerHeapChecked, require_eq hroom, add_eq hcount]

/-- The sums of the counters of the dead heaps and the registered ones are in range. -/
def HeapRegistry.SumsFit (registry : HeapRegistry) (heaps : ℕ → HeapMetrics) : Prop :=
  ∀ k ∈ summedCounters,
    registry.dead.counter k + (registry.registered.map fun h => (heaps h).counter k).sum < wordLimit

variable {m : PoolMetrics} {heaps : ℕ → HeapMetrics} {entries : List ℕ} {ptr : ℕ}

/-- Deregistering a registered heap fails no check while the sums are in range. -/
theorem RegistryInv.deregisterHeapChecked_eq (hreg : RegistryInv m.registry heaps entries)
    (hptr : ptr ∈ entries) (hfit : m.registry.SumsFit heaps) :
    m.deregisterHeapChecked heaps ptr = m.deregisterHeap heaps ptr := by
  obtain ⟨i, hi⟩ := List.getElem?_of_mem hptr
  have hlt : i < entries.length := (List.getElem?_eq_some_iff.mp hi).1
  have hidx : (heaps ptr).registryIdx = i := hreg.idx i ptr hi
  have hroom := hreg.room
  have hcount : m.heapCount = entries.length := hreg.count
  have hindex : (heaps ptr).registryIdx < maxHeaps := by omega
  have hentry : m.heapPtrs (heaps ptr).registryIdx = some ptr := by
    rw [hidx]
    exact (hreg.ptrs i).trans hi
  have hsums : ∀ k ∈ summedCounters, m.dead.counter k + (heaps ptr).counter k < wordLimit := by
    intro k hk
    refine lt_of_le_of_lt (Nat.add_le_add_left ?_ _) (hfit k hk)
    rw [hreg.registered]
    exact List.single_le_sum (by simp) _ (List.mem_map_of_mem hptr)
  have hlast : m.heapCount - 1 < maxHeaps := by omega
  simp [PoolMetrics.deregisterHeapChecked, require_eq hindex, require_eq hentry, require_eq hsums,
    sub_eq (show 1 ≤ m.heapCount by omega), require_eq hlast]

/-- Summing registered heaps into a snapshot fails no check while the sums are in range. -/
theorem RegistryInv.foldlM_checked_eq (hreg : RegistryInv m.registry heaps entries)
    (snapshot : MetricsSnapshot)
    (hfit : ∀ k ∈ summedCounters, snapshot.counter k +
      (entries.map fun h => (heaps h).counter k).sum < wordLimit) :
    (List.range m.heapCount).foldlM (m.aggregateEntryChecked heaps) snapshot =
      some (entries.foldl (fun snapshot h => snapshot.accumulateHeap (heaps h)) snapshot) := by
  have hstep (n : ℕ) (hn : n ≤ entries.length) :
      (List.range n).foldlM (m.aggregateEntryChecked heaps) snapshot =
          some ((entries.take n).foldl
            (fun snapshot h => snapshot.accumulateHeap (heaps h)) snapshot) ∧
        ∀ k ∈ summedCounters, ((entries.take n).foldl (fun snapshot h => snapshot.accumulateHeap
          (heaps h)) snapshot).counter k ≤
          snapshot.counter k + ((entries.take n).map fun h => (heaps h).counter k).sum := by
    induction n with
    | zero => exact ⟨rfl, fun k _ => by simp⟩
    | succ n ih =>
      obtain ⟨hfold, hle⟩ := ih (by omega)
      have hentry : entries[n]? = some entries[n] := List.getElem?_eq_getElem hn
      have hptr : m.heapPtrs n = some entries[n] := (hreg.ptrs n).trans hentry
      have hindex : n < maxHeaps := lt_of_lt_of_le hn hreg.room
      have htake : entries.take (n + 1) = entries.take n ++ [entries[n]] := by
        rw [List.take_add_one, hentry]
        rfl
      have hsum (k : Counter) : (((entries.take (n + 1)).map fun h => (heaps h).counter k)).sum =
          ((entries.take n).map fun h => (heaps h).counter k).sum +
            (heaps entries[n]).counter k := by
        rw [htake, List.map_append, List.sum_append, List.map_singleton, List.sum_singleton]
      have htotal (k : Counter) : ((entries.take (n + 1)).map fun h => (heaps h).counter k).sum ≤
          (entries.map fun h => (heaps h).counter k).sum :=
        ((List.take_sublist (n + 1) entries).map _).sum_le_sum (by simp)
      have hfits : ∀ k ∈ summedCounters,
          ((entries.take n).foldl (fun snapshot h => snapshot.accumulateHeap (heaps h))
            snapshot).counter k + (heaps entries[n]).counter k < wordLimit := by
        intro k hk
        have h₁ := hle k hk
        have h₂ := hfit k hk
        have h₃ := htotal k
        have h₄ := hsum k
        omega
      refine ⟨?_, fun k hk => ?_⟩
      · rw [List.range_succ, List.foldlM_append, hfold]
        simp only [Option.bind_eq_bind, Option.bind_some, List.foldlM_cons, List.foldlM_nil,
          PoolMetrics.aggregateEntryChecked, require_eq hindex, hptr, require_eq hfits, htake,
            List.foldl_append,
          List.foldl_cons, List.foldl_nil]
        rfl
      · rw [hsum, htake, List.foldl_append, List.foldl_cons, List.foldl_nil,
          MetricsSnapshot.accumulateHeap_counter]
        have h₁ := hle k hk
        have hinc (a b : ℕ) : inc a b ≤ a + b := Nat.mod_le _ _
        refine (hinc _ _).trans ?_
        omega
  obtain ⟨hfold, -⟩ := hstep entries.length le_rfl
  rw [show m.heapCount = entries.length from hreg.count, hfold, List.take_length]

/-- Reading a snapshot fails no check while the mapped bytes and the sums are in range. -/
theorem RegistryInv.snapshotChecked_ne_none (hreg : RegistryInv st.metrics.registry heaps entries)
    (hmapped : st.segmentCount * segmentSize + st.largeMappedBytes < wordLimit)
    (hfit : st.metrics.registry.SumsFit heaps) : snapshotChecked st heaps ≠ none := by
  have hsegments : st.segmentCount * segmentSize < wordLimit := by omega
  have hzero (mapped : ℕ) (k : Counter) :
      MetricsSnapshot.counter { MetricsSnapshot.new with mapped := mapped } k =
    0 := by
    cases k <;> rfl
  have hsums (k : Counter) (hk : k ∈ summedCounters) :
      st.metrics.dead.counter k + (entries.map fun h => (heaps h).counter k).sum < wordLimit := by
    have hk' := hfit k hk
    rw [hreg.registered] at hk'
    exact hk'
  have hdead : ∀ k ∈ summedCounters, MetricsSnapshot.counter { MetricsSnapshot.new with
      mapped := st.segmentCount * segmentSize +
        st.largeMappedBytes } k + st.metrics.dead.counter k < wordLimit := by
    intro k hk
    rw [hzero]
    have hk' := hsums k hk
    omega
  have hfold := hreg.foldlM_checked_eq (MetricsSnapshot.accumulateHeap { MetricsSnapshot.new with
    mapped := st.segmentCount * segmentSize + st.largeMappedBytes } st.metrics.dead) fun k hk => by
      rw [MetricsSnapshot.accumulateHeap_counter, hzero]
      refine lt_of_le_of_lt (Nat.add_le_add_right (Nat.mod_le _ _) _) ?_
      rw [Nat.zero_add]
      exact hsums k hk
  simp [snapshotChecked, require_eq hsegments, add_eq hmapped, require_eq hdead, hfold]

end ClMalloc
