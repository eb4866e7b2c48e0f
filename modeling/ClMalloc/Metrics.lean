import ClMalloc.SizeClass
import Mathlib.Logic.Function.Basic

/-!
# Allocation counters

Each heap keeps cumulative counters with a single writer; the pool keeps the registry of
live heaps and one accumulator for the counters of heaps that are gone. A snapshot sums
the accumulator and every registered heap. The counters of a heap and their sums wrap at
64 bits; the event counts of the pool are natural numbers. A heap is referred to by its
handle where the source stores a pointer to its counters.
-/

namespace ClMalloc

/-- Arithmetic in `u64` keeps the low 64 bits. -/
def u64 (n : ℕ) : ℕ := n % 0x10000000000000000

/-- Wrap to the range of `i64`. -/
def i64 (n : ℤ) : ℤ := (n + 0x8000000000000000) % 0x10000000000000000 - 0x8000000000000000

/-- `inc`: add to a counter. -/
def inc (counter amount : ℕ) : ℕ := u64 (counter + amount)

/-- `inc` on one entry of a per-class counter array. -/
def incAt (counters : ℕ → ℕ) (idx amount : ℕ) : ℕ → ℕ :=
  Function.update counters idx (inc (counters idx) amount)

/-- The counters of one heap, with its position in the registry. -/
structure HeapMetrics where
  registryIdx : ℕ
  allocBytes : ℕ
  freeBytes : ℕ
  classAllocCount : ℕ → ℕ
  classDeallocCount : ℕ → ℕ
  classAllocBytes : ℕ → ℕ
  classFreeBytes : ℕ → ℕ
  remoteFreeCount : ℕ
  largeAllocCount : ℕ
  largeAllocBytes : ℕ
  largeDeallocBytes : ℕ

/-- Zero counters, with the registry position not yet assigned. -/
def HeapMetrics.zero : HeapMetrics where
  registryIdx := 2 ^ 32 - 1
  allocBytes := 0
  freeBytes := 0
  classAllocCount := fun _ => 0
  classDeallocCount := fun _ => 0
  classAllocBytes := fun _ => 0
  classFreeBytes := fun _ => 0
  remoteFreeCount := 0
  largeAllocCount := 0
  largeAllocBytes := 0
  largeDeallocBytes := 0

/-- Add to one entry of a per-class event count. -/
def addAt (counts : ℕ → ℕ) (idx amount : ℕ) : ℕ → ℕ :=
  Function.update counts idx (counts idx + amount)

/-- Count one slab-served allocation. -/
def HeapMetrics.onAlloc (m : HeapMetrics) (idx classSize : ℕ) : HeapMetrics :=
  { m with
    allocBytes := inc m.allocBytes classSize
    classAllocCount := incAt m.classAllocCount idx 1
    classAllocBytes := incAt m.classAllocBytes idx classSize }

/-- Count one slab-served deallocation. -/
def HeapMetrics.onDealloc (m : HeapMetrics) (idx classSize : ℕ) : HeapMetrics :=
  { m with
    freeBytes := inc m.freeBytes classSize
    classDeallocCount := incAt m.classDeallocCount idx 1
    classFreeBytes := incAt m.classFreeBytes idx classSize }

/-- Count one large allocation. -/
def HeapMetrics.onLargeAlloc (m : HeapMetrics) (size : ℕ) : HeapMetrics :=
  { m with
    allocBytes := inc m.allocBytes size
    largeAllocCount := inc m.largeAllocCount 1
    largeAllocBytes := inc m.largeAllocBytes size }

/-- Count one large deallocation. -/
def HeapMetrics.onLargeDealloc (m : HeapMetrics) (size : ℕ) : HeapMetrics :=
  { m with
    freeBytes := inc m.freeBytes size
    largeDeallocBytes := inc m.largeDeallocBytes size }

/-- Count remote frees. -/
def HeapMetrics.onRemoteFree (m : HeapMetrics) (count : ℕ) : HeapMetrics :=
  { m with remoteFreeCount := inc m.remoteFreeCount count }

/-- Fold another heap's counters into this one; the registry position is untouched. -/
def HeapMetrics.accumulate (m other : HeapMetrics) : HeapMetrics :=
  { m with
    allocBytes := inc m.allocBytes other.allocBytes
    freeBytes := inc m.freeBytes other.freeBytes
    remoteFreeCount := inc m.remoteFreeCount other.remoteFreeCount
    largeAllocCount := inc m.largeAllocCount other.largeAllocCount
    largeAllocBytes := inc m.largeAllocBytes other.largeAllocBytes
    largeDeallocBytes := inc m.largeDeallocBytes other.largeDeallocBytes
    classAllocCount := fun i => inc (m.classAllocCount i) (other.classAllocCount i)
    classDeallocCount := fun i => inc (m.classDeallocCount i) (other.classDeallocCount i)
    classAllocBytes := fun i => inc (m.classAllocBytes i) (other.classAllocBytes i)
    classFreeBytes := fun i => inc (m.classFreeBytes i) (other.classFreeBytes i) }

/-- The registry holds at most this many heaps. -/
def maxHeaps : ℕ := 1024

/-- Pool-level counters and the heap registry. The event counts are `u64` in the source, where
`PoolMetrics.HasRoom` says that one more event does not overflow them; here they do not wrap. -/
structure PoolMetrics where
  abandonCount : ℕ → ℕ
  adoptCount : ℕ → ℕ
  segmentMmapCount : ℕ
  segmentMunmapCount : ℕ
  slabPurgeCount : ℕ
  poolLockCount : ℕ
  heapPtrs : ℕ → Option ℕ
  heapCount : ℕ
  dead : HeapMetrics

/-- Zero counters and an empty registry. -/
def PoolMetrics.new : PoolMetrics where
  abandonCount := fun _ => 0
  adoptCount := fun _ => 0
  segmentMmapCount := 0
  segmentMunmapCount := 0
  slabPurgeCount := 0
  poolLockCount := 0
  heapPtrs := fun _ => none
  heapCount := 0
  dead := .zero

/-- Store a position of the registry, as a `u32`. -/
def HeapMetrics.storeRegistryIdx (m : HeapMetrics) (idx : ℕ) : HeapMetrics :=
  { m with registryIdx := idx % 0x100000000 }

/-- `register_heap`; panics when the registry is full. -/
def PoolMetrics.registerHeap (m : PoolMetrics) (heaps : ℕ → HeapMetrics) (ptr : ℕ) :
    Option (PoolMetrics × (ℕ → HeapMetrics)) :=
  if m.heapCount < maxHeaps then
    some ({ m with
        heapPtrs := Function.update m.heapPtrs m.heapCount (some ptr)
        heapCount := m.heapCount + 1 },
      Function.update heaps ptr ((heaps ptr).storeRegistryIdx m.heapCount))
  else none

/-- `deregister_heap`: fold the counters into `dead` and move the last entry into the gap. -/
def PoolMetrics.deregisterHeap (m : PoolMetrics) (heaps : ℕ → HeapMetrics) (ptr : ℕ) :
    Option (PoolMetrics × (ℕ → HeapMetrics)) :=
  match m.heapCount with
  | 0 => none
  | last + 1 =>
    let idx := (heaps ptr).registryIdx
    let m := { m with dead := m.dead.accumulate (heaps ptr), heapCount := last }
    if idx = last then some ({ m with heapPtrs := Function.update m.heapPtrs last none }, heaps)
    else if idx < maxHeaps then
      match m.heapPtrs last with
      | some moved =>
        some ({ m with
            heapPtrs := Function.update (Function.update m.heapPtrs idx (some moved)) last none },
          Function.update heaps moved ((heaps moved).storeRegistryIdx idx))
      | none => none
    else none

/-- What a snapshot reports. -/
structure MetricsSnapshot where
  allocated : ℕ
  active : ℕ
  mapped : ℕ
  allocBytes : ℕ
  freeBytes : ℕ
  classAllocCount : ℕ → ℕ
  classDeallocCount : ℕ → ℕ
  classAllocBytes : ℕ → ℕ
  classFreeBytes : ℕ → ℕ
  classLiveCount : ℕ → ℤ
  classLiveBytes : ℕ → ℤ
  abandonCount : ℕ → ℕ
  adoptCount : ℕ → ℕ
  segmentMmapCount : ℕ
  segmentMunmapCount : ℕ
  slabPurgeCount : ℕ
  largeAllocCount : ℕ
  largeAllocBytes : ℕ
  largeDeallocBytes : ℕ
  remoteFreeCount : ℕ
  poolLockCount : ℕ

/-- A snapshot of nothing. -/
def MetricsSnapshot.new : MetricsSnapshot where
  allocated := 0
  active := 0
  mapped := 0
  allocBytes := 0
  freeBytes := 0
  classAllocCount := fun _ => 0
  classDeallocCount := fun _ => 0
  classAllocBytes := fun _ => 0
  classFreeBytes := fun _ => 0
  classLiveCount := fun _ => 0
  classLiveBytes := fun _ => 0
  abandonCount := fun _ => 0
  adoptCount := fun _ => 0
  segmentMmapCount := 0
  segmentMunmapCount := 0
  slabPurgeCount := 0
  largeAllocCount := 0
  largeAllocBytes := 0
  largeDeallocBytes := 0
  remoteFreeCount := 0
  poolLockCount := 0

/-- `accumulate_heap`. -/
def MetricsSnapshot.accumulateHeap (snapshot : MetricsSnapshot) (h : HeapMetrics) :
    MetricsSnapshot :=
  { snapshot with
    allocBytes := inc snapshot.allocBytes h.allocBytes
    freeBytes := inc snapshot.freeBytes h.freeBytes
    remoteFreeCount := inc snapshot.remoteFreeCount h.remoteFreeCount
    largeAllocCount := inc snapshot.largeAllocCount h.largeAllocCount
    largeAllocBytes := inc snapshot.largeAllocBytes h.largeAllocBytes
    largeDeallocBytes := inc snapshot.largeDeallocBytes h.largeDeallocBytes
    classAllocCount := fun i => inc (snapshot.classAllocCount i) (h.classAllocCount i)
    classDeallocCount := fun i => inc (snapshot.classDeallocCount i) (h.classDeallocCount i)
    classAllocBytes := fun i => inc (snapshot.classAllocBytes i) (h.classAllocBytes i)
    classFreeBytes := fun i => inc (snapshot.classFreeBytes i) (h.classFreeBytes i) }

/-- The loop of `aggregate_heap_metrics` reads the counters behind an entry of the registry. -/
def PoolMetrics.aggregateEntry (m : PoolMetrics) (heaps : ℕ → HeapMetrics)
    (snapshot : MetricsSnapshot) (i : ℕ) :
    Option MetricsSnapshot :=
  (m.heapPtrs i).map fun ptr => snapshot.accumulateHeap (heaps ptr)

/-- `aggregate_heap_metrics`; a null entry has no counters to read. -/
def PoolMetrics.aggregateHeapMetrics (m : PoolMetrics) (heaps : ℕ → HeapMetrics)
    (snapshot : MetricsSnapshot) :
    Option MetricsSnapshot :=
  ((List.range m.heapCount).foldlM (m.aggregateEntry heaps) (snapshot.accumulateHeap m.dead)).map
    fun snapshot =>
    { snapshot with
      abandonCount := m.abandonCount
      adoptCount := m.adoptCount
      segmentMmapCount := m.segmentMmapCount
      segmentMunmapCount := m.segmentMunmapCount
      slabPurgeCount := m.slabPurgeCount
      poolLockCount := m.poolLockCount }

/-- `finalize`: the gauges, from the sums. -/
def MetricsSnapshot.finalize (snapshot : MetricsSnapshot) : MetricsSnapshot :=
  { snapshot with
    classLiveCount := fun i =>
      i64 (i64 (snapshot.classAllocCount i) - i64 (snapshot.classDeallocCount i))
    classLiveBytes := fun i =>
      i64 (i64 (snapshot.classAllocBytes i) - i64 (snapshot.classFreeBytes i))
    allocated := snapshot.allocBytes - snapshot.freeBytes }

end ClMalloc
