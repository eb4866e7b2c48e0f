import ClMalloc.Metrics
import Mathlib.Data.List.Range

/-!
# The page pool's critical sections

`PoolState` is the data behind the pool's lock: a dirty and a clean list of free slab
pages, the segment being carved, and the table of registered segments with the number of
pages of each that are outstanding. Each function below is one critical section, or a
helper that runs inside one. The lock is not held around the page allocator, so
`allocSlab` and `purgeExcess` of the source are each two sections here.

An address is a natural number and null is zero. A free list is the list of its pages in
link order beside the separately maintained length field. `none` is the `unreachable!`
arm of `findSegment`.
-/

namespace ClMalloc

/-- Size and alignment of a slab page. -/
def slabSize : ℕ := 65536

/-- Size of a segment obtained from the page allocator. -/
def segmentSize : ℕ := 2 * 1024 * 1024

/-- Capacity of the segment table. -/
def maxSegments : ℕ := 4096

/-- Slab pages in one segment. -/
def slabsPerSegment : ℕ := segmentSize / slabSize

/-- More dirty pages than this trigger a purge. -/
def purgeHighWater : ℕ := 64

/-- A purge stops at this many dirty pages. -/
def purgeLowWater : ℕ := 32

/-- Increment of a `u8`. -/
def u8Inc (n : ℕ) : ℕ := (n + 1) % 256

/-- Decrement of a `u8`. -/
def u8Dec (n : ℕ) : ℕ := (n + 255) % 256

/-- A list of free slab pages with its length field. -/
structure PageFreeList where
  pages : List ℕ
  len : ℕ

/-- The empty free list. -/
def PageFreeList.empty : PageFreeList := ⟨[], 0⟩

/-- Link a page in at the head. -/
def PageFreeList.push (l : PageFreeList) (slab : ℕ) : PageFreeList := ⟨slab :: l.pages, l.len + 1⟩

/-- Unlink the head page, if there is one. -/
def PageFreeList.pop (l : PageFreeList) : Option (ℕ × PageFreeList) :=
  match l.pages with
  | [] => none
  | slab :: rest => some (slab, ⟨rest, l.len - 1⟩)

/-- The walk of `remove_if`: unlink each page the predicate selects, decrementing the length. -/
def removeIfWalk (pred : ℕ → Bool) : List ℕ → ℕ → List ℕ × ℕ
  | [], len => ([], len)
  | slab :: rest, len =>
    if pred slab then removeIfWalk pred rest (len - 1)
    else
      let tail := removeIfWalk pred rest len
      (slab :: tail.1, tail.2)

/-- Remove all pages the predicate selects. -/
def PageFreeList.removeIf (l : PageFreeList) (pred : ℕ → Bool) : PageFreeList :=
  let walked := removeIfWalk pred l.pages l.len
  ⟨walked.1, walked.2⟩

/-- The data behind the pool's lock. -/
structure PoolState where
  dirtyList : PageFreeList
  cleanList : PageFreeList
  segmentCursor : ℕ
  segmentEnd : ℕ
  carvingIdx : ℕ
  segments : ℕ → ℕ
  segmentCount : ℕ
  segOutstanding : ℕ → ℕ
  outstandingSlabs : ℕ
  largeMappedBytes : ℕ
  metrics : PoolMetrics

/-- The state of a new pool. -/
def PoolState.new : PoolState where
  dirtyList := .empty
  cleanList := .empty
  segmentCursor := 0
  segmentEnd := 0
  carvingIdx := 0
  segments := fun _ => 0
  segmentCount := 0
  segOutstanding := fun _ => 0
  outstandingSlabs := 0
  largeMappedBytes := 0
  metrics := .new

/-- Count one acquisition of the lock. -/
def PoolState.countLock (st : PoolState) : PoolState :=
  { st with metrics := { st.metrics with poolLockCount := st.metrics.poolLockCount + 1 } }

/-- The address range of the segment at `base` contains `addr`. -/
def inSegment (base addr : ℕ) : Bool := decide (base ≤ addr) && decide (addr < base + segmentSize)

/-- The first registered segment whose range contains the address. -/
def findSegment (st : PoolState) (addr : ℕ) : Option ℕ :=
  (List.range st.segmentCount).find? fun i => inSegment (st.segments i) addr

/-- True unless the carving cursor lies in the segment's range. -/
def segmentFullyCarved (st : PoolState) (segIdx : ℕ) : Bool :=
  !inSegment (st.segments segIdx) st.segmentCursor

/-- Unlink from both free lists every page of the segment at `segBase`. -/
def removeSegmentSlabs (st : PoolState) (segBase : ℕ) : PoolState :=
  { st with
    dirtyList := st.dirtyList.removeIf (inSegment segBase)
    cleanList := st.cleanList.removeIf (inSegment segBase) }

/-- Swap-remove a segment from the tracking arrays. -/
def swapRemoveSegment (st : PoolState) (segIdx : ℕ) : PoolState :=
  let last := st.segmentCount - 1
  let moved :=
    if segIdx ≠ last then
      { st with
        segments := Function.update st.segments segIdx (st.segments last)
        segOutstanding := Function.update st.segOutstanding segIdx (st.segOutstanding last)
        carvingIdx := if st.carvingIdx = last then segIdx else st.carvingIdx }
    else st
  { moved with
    segments := Function.update moved.segments last 0
    segOutstanding := Function.update moved.segOutstanding last 0
    segmentCount := last }

/-- Count one more outstanding page of a segment. -/
def PoolState.incOutstanding (st : PoolState) (seg : ℕ) : PoolState :=
  { st with
    segOutstanding := Function.update st.segOutstanding seg (u8Inc (st.segOutstanding seg)) }

/-- Count one outstanding page of a segment less. -/
def PoolState.decOutstanding (st : PoolState) (seg : ℕ) : PoolState :=
  { st with
    segOutstanding := Function.update st.segOutstanding seg (u8Dec (st.segOutstanding seg)) }

/-- Pop a free page, preferring the dirty list. -/
def popFree (st : PoolState) : Option (ℕ × PoolState) :=
  match st.dirtyList.pop with
  | some (slab, rest) => some (slab, { st with dirtyList := rest })
  | none =>
    match st.cleanList.pop with
    | some (slab, rest) => some (slab, { st with cleanList := rest })
    | none => none

/-- The critical section of `alloc_slab`: a free page, else a carved page, else nothing. -/
def allocSlabLocked (st : PoolState) : Option (PoolState × Option ℕ) :=
  match popFree st.countLock with
  | some (slab, st) =>
    match findSegment st slab with
    | some seg =>
      some ({ st.incOutstanding seg with outstandingSlabs := st.outstandingSlabs + 1 }, some slab)
    | none => none
  | none =>
    let st := st.countLock
    if st.segmentCursor < st.segmentEnd then
      some ({ st.incOutstanding st.carvingIdx with
        segmentCursor := st.segmentCursor + slabSize
        outstandingSlabs := st.outstandingSlabs + 1 }, some st.segmentCursor)
    else some (st, none)

/-- The pages after the first are pushed from the highest down, so they pop in address order. -/
def pushSegmentSlabs (l : PageFreeList) (base : ℕ) : PageFreeList :=
  (List.range' 1 (slabsPerSegment - 1)).reverse.foldl (fun l i => l.push (base + i * slabSize)) l

/-- The critical section of `alloc_slab_slow` for a freshly mapped segment; no page when the table
is full. -/
def allocSlabSlowLocked (st : PoolState) (base : ℕ) : PoolState × Option ℕ :=
  let st := { st.countLock with
    metrics := { st.countLock.metrics with segmentMmapCount := st.metrics.segmentMmapCount + 1 } }
  if maxSegments ≤ st.segmentCount then (st, none)
  else
    let segIdx := st.segmentCount
    let st := { st with
      segments := Function.update st.segments segIdx base
      segmentCount := segIdx + 1
      segOutstanding := Function.update st.segOutstanding segIdx 1
      outstandingSlabs := st.outstandingSlabs + 1 }
    if st.segmentCursor < st.segmentEnd then
      -- another thread set up a carving segment during the mmap
      ({ st with cleanList := pushSegmentSlabs st.cleanList base }, some base)
    else
      ({ st with
        carvingIdx := segIdx
        segmentCursor := base + slabSize
        segmentEnd := base + segmentSize }, some base)

/-- What `dealloc_slab` still has to do after its critical section. -/
inductive DeallocOutcome
  | release (segment : ℕ)
  | purge
  | done
  deriving DecidableEq

/-- The critical section of `dealloc_slab`. -/
def deallocSlabLocked (st : PoolState) (slab : ℕ) : Option (PoolState × DeallocOutcome) :=
  let st := { st.countLock with dirtyList := st.dirtyList.push slab }
  match findSegment st slab with
  | none => none
  | some seg =>
    let st := { st.decOutstanding seg with outstandingSlabs := st.outstandingSlabs - 1 }
    if st.segOutstanding seg = 0 ∧ segmentFullyCarved st seg = true then
      let segmentPtr := st.segments seg
      let st := swapRemoveSegment (removeSegmentSlabs st segmentPtr) seg
      some ({ st with
        metrics := { st.metrics with segmentMunmapCount := st.metrics.segmentMunmapCount + 1 } },
        .release segmentPtr)
    else if purgeHighWater < st.dirtyList.len then some (st, .purge)
    else some (st, .done)

/-- The capacity of the purge buffer. -/
def purgeBatch : ℕ := purgeHighWater - purgeLowWater

/-- The loop of the first section of `purge_excess`, with `room` free entries left in the buffer. -/
def purgeTakeLoop : ℕ → PoolState → List ℕ → Option (PoolState × List ℕ)
  | 0, st, buf => some (st, buf)
  | room + 1, st, buf =>
    if purgeLowWater < st.dirtyList.len then
      match st.dirtyList.pop with
      | some (slab, rest) =>
        let st := { st with dirtyList := rest }
        match findSegment st slab with
        | some seg => purgeTakeLoop room (st.incOutstanding seg) (buf ++ [slab])
        | none => none
      | none => some (st, buf)
    else some (st, buf)

/-- The first critical section of `purge_excess`: move dirty pages into the caller's buffer. -/
def purgeTakeLocked (st : PoolState) : Option (PoolState × List ℕ) :=
  purgeTakeLoop purgeBatch st.countLock []

/-- The loop of the second section of `purge_excess`. -/
def purgeReturnLoop : List ℕ → PoolState → Option PoolState
  | [], st => some st
  | slab :: rest, st =>
    match findSegment st slab with
    | some seg =>
      let st := st.decOutstanding seg
      purgeReturnLoop rest { st with cleanList := st.cleanList.push slab }
    | none => none

/-- The second critical section of `purge_excess`: hand the purged pages to the clean list. -/
def purgeReturnLocked (st : PoolState) (buf : List ℕ) : Option PoolState :=
  purgeReturnLoop buf { st.countLock with
    metrics := { st.countLock.metrics with
      slabPurgeCount := st.metrics.slabPurgeCount + buf.length } }

/-- The critical section of `alloc_large`. -/
def allocLargeLocked (st : PoolState) (size : ℕ) : PoolState :=
  { st with largeMappedBytes := st.largeMappedBytes + size }

/-- The critical section of `dealloc_large`. -/
def deallocLargeLocked (st : PoolState) (size : ℕ) : PoolState :=
  { st with largeMappedBytes := st.largeMappedBytes - size }

/-- The critical section of `abandon_slab`, after its push. -/
def abandonSlabLocked (st : PoolState) (classIdx : ℕ) : PoolState :=
  { st with metrics := { st.metrics with
    abandonCount := addAt st.metrics.abandonCount classIdx 1 } }

/-- The critical section of `inc_adopt_count`. -/
def incAdoptCountLocked (st : PoolState) (classIdx : ℕ) : PoolState :=
  { st with metrics := { st.metrics with adoptCount := addAt st.metrics.adoptCount classIdx 1 } }

end ClMalloc
