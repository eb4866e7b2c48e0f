import ClMalloc.QuietPool
import ClMalloc.SlabWhole
import ClMalloc.Lib.DList
import ClMalloc.Lib.Transition

/-!
# Heaps sharing one page pool

A heap has an active slab and two queues of slabs for every size class. The queue heads and
the `next_link` and `prev_link` of all slabs are the cells of one linked structure, so that a
back link can name the cell it points at; `headers` holds the rest of each slab's header,
by page, and `next` the free-list links inside the slots. A heap is addressed by a handle,
which stands for where it is stored; its id comes from a counter of word size in the source,
which is taken not to wrap: no run makes `2 ^ 64` heaps.

Loops of the source that follow links take fuel. Running out of fuel, a null back link in
`slab_list_remove`, a panic of the pool and an unlawful answer of the page allocator are the
faults an operation can end in.
-/

namespace ClMalloc

open Intrusive Placement

/-- The two queues of a class. -/
inductive Queue
  | full
  | part
  deriving DecidableEq

/-- `full_heads[class]` or `partial_heads[class]` of a heap. -/
structure QueueHead where
  heap : ℕ
  queue : Queue
  classIdx : ℕ
  deriving DecidableEq

/-- A thread-local heap, without its queue heads. -/
structure Heap where
  id : ℕ
  bins : ℕ → Option ℕ
  metrics : HeapMetrics

/-- The pool, the memory of the slabs, and the heaps. -/
structure HeapSys where
  pool : PagePool
  headers : ℕ → SlabHeader
  next : ℕ → Option ℕ
  links : Links ℕ QueueHead
  heap : ℕ → Heap
  nextHeapId : ℕ

/-- How an operation can fail to end. -/
inductive HeapFault
  | badReply
  | poolPanic
  | nullPrevLink
  | outOfFuel
  deriving DecidableEq

/-- Change a heap. -/
def HeapSys.setHeap (s : HeapSys) (h : ℕ) (heap : Heap) : HeapSys :=
  { s with heap := Function.update s.heap h heap }

/-- Set the active slab of a class. -/
def HeapSys.setBin (s : HeapSys) (h c : ℕ) (slab : Option ℕ) : HeapSys :=
  s.setHeap h { s.heap h with bins := Function.update (s.heap h).bins c slab }

/-- Count in the metrics of a heap. -/
def HeapSys.count (s : HeapSys) (h : ℕ) (f : HeapMetrics → HeapMetrics) : HeapSys :=
  s.setHeap h { s.heap h with metrics := f (s.heap h).metrics }

/-- Write the header of a slab. -/
def HeapSys.setHeader (s : HeapSys) (slab : ℕ) (header : SlabHeader) : HeapSys :=
  { s with headers := Function.update s.headers slab header }

/-- `Slab::alloc`. -/
def HeapSys.slabAlloc (s : HeapSys) (slab : ℕ) : HeapSys × Option ℕ :=
  match (s.headers slab).alloc s.next slab with
  | some (ptr, header) => (s.setHeader slab header, some ptr)
  | none => (s, none)

/-- `Slab::dealloc_local`. -/
def HeapSys.deallocLocal (s : HeapSys) (slab ptr : ℕ) : HeapSys :=
  { s with
    next := Function.update s.next ptr (s.headers slab).localList.head
    headers := Function.update s.headers slab ((s.headers slab).deallocLocal ptr) }

/-- `SlabRef::dealloc_remote`. -/
def HeapSys.deallocRemote (s : HeapSys) (slab ptr : ℕ) : HeapSys :=
  { s with
    next := Function.update s.next ptr (s.headers slab).remoteHead
    headers := Function.update s.headers slab ((s.headers slab).deallocRemote ptr) }

/-- `Slab::drain_remote`. -/
def HeapSys.drainRemote (s : HeapSys) (slab : ℕ) : Except HeapFault HeapSys :=
  match (s.headers slab).drainRemote s.next with
  | some (next, header) =>
    .ok { s with next := next, headers := Function.update s.headers slab header }
  | none => .error .outOfFuel

/-- `slab_list_push`. -/
def HeapSys.slabListPush (s : HeapSys) (head : QueueHead) (slab : ℕ) : HeapSys :=
  { s with links := s.links.push head slab }

/-- `slab_list_pop`. -/
def HeapSys.slabListPop (s : HeapSys) (head : QueueHead) : Option (ℕ × HeapSys) :=
  match s.links.pop head with
  | some (slab, links) => some (slab, { s with links := links })
  | none => none

/-- `slab_list_remove`. -/
def HeapSys.slabListRemove (s : HeapSys) (slab : ℕ) : Except HeapFault HeapSys :=
  match s.links.remove slab with
  | some links => .ok { s with links := links }
  | none => .error .nullPrevLink

/-- `PagePool::cache_slab`. The link it writes into the free page is left to `HeapSys.scribble`. -/
def HeapSys.cacheSlab (s : HeapSys) (slab : ℕ) : Except HeapFault HeapSys :=
  match s.pool.cacheSlabToEnd slab with
  | some pool => .ok { s with pool := pool }
  | none => .error .poolPanic

/-- `PagePool::abandon_slab`: link the slab to the head of its class's list and make it the head. -/
def HeapSys.abandonSlab (s : HeapSys) (slab : ℕ) : HeapSys :=
  let classIdx := (s.headers slab).sizeClassIndex
  { s with
    links := s.links.setNext slab (s.pool.abandoned classIdx).head?
    pool := s.pool.abandonSlab 0 classIdx slab }

/-- `try_partial`: make the first slab of the partial queue the active one. -/
def HeapSys.tryPartial (s : HeapSys) (h c : ℕ) : HeapSys × Bool :=
  match s.slabListPop ⟨h, .part, c⟩ with
  | some (slab, s) => (s.setBin h c (some slab), true)
  | none => (s, false)

/-- Take a slab found partly free out of the full queue: to the bin if it is empty, else to the
partial queue. -/
def HeapSys.promote (s : HeapSys) (h c slab : ℕ) : HeapSys :=
  if (s.heap h).bins c = none then s.setBin h c (some slab) else s.slabListPush ⟨h, .part, c⟩ slab

/-- Drain the remote stack of a slab if it has entries. -/
def HeapSys.drainPending (s : HeapSys) (slab : ℕ) : Except HeapFault HeapSys :=
  if (s.headers slab).hasPendingRemote then s.drainRemote slab else .ok s

/-- The loop of `scan_full_list`. -/
def HeapSys.scanLoop (h c : ℕ) : ℕ → HeapSys → Option ℕ → Except HeapFault HeapSys
  | _, s, none => .ok s
  | 0, _, some _ => .error .outOfFuel
  | fuel + 1, s, some slab => do
    let current := s.links.next slab
    let s ← s.drainPending slab
    if (s.headers slab).isFullyFree then
      let s ← s.slabListRemove slab
      let s ← s.cacheSlab slab
      scanLoop h c fuel s current
    else if 0 < (s.headers slab).freeCount then
      let s ← s.slabListRemove slab
      scanLoop h c fuel (s.promote h c slab) current
    else scanLoop h c fuel s current

/-- `scan_full_list`. -/
def HeapSys.scanFullList (s : HeapSys) (h c : ℕ) : Except HeapFault HeapSys :=
  HeapSys.scanLoop h c s.pool.inUse.length s (s.links.head ⟨h, .full, c⟩)

/-- `retire_active`: move the exhausted active slab to the full queue. -/
def HeapSys.retireActive (s : HeapSys) (h c : ℕ) : HeapSys :=
  match (s.heap h).bins c with
  | some slab => (s.setBin h c none).slabListPush ⟨h, .full, c⟩ slab
  | none => s

/-- Queue an adopted slab by what it has available. -/
def HeapSys.enqueue (s : HeapSys) (h c slab : ℕ) : HeapSys :=
  if 0 < (s.headers slab).freeCount then s.slabListPush ⟨h, .part, c⟩ slab
    else s.slabListPush ⟨h, .full, c⟩ slab

/-- Clear the links of an adopted slab and write the heap's id. -/
def HeapSys.claim (s : HeapSys) (h slab : ℕ) : HeapSys :=
  { s with
    links := (s.links.setNext slab none).setPrev slab none
    headers := Function.update s.headers slab { s.headers slab with heapId := (s.heap h).id } }

/-- Take over an adopted slab, drain it and count the adoption. -/
def HeapSys.takeOver (s : HeapSys) (h c slab : ℕ) : Except HeapFault HeapSys := do
  let s ← (s.claim h slab).drainRemote slab
  .ok { s with pool := s.pool.incAdoptCount c }

/-- Use an adopted slab that is not fully free: allocate from the first one that has a slot, queue
the others. -/
def HeapSys.useAdopted (s : HeapSys) (h c slab : ℕ) (result : Option ℕ) : HeapSys × Option ℕ :=
  match result with
  | some ptr => (s.enqueue h c slab, some ptr)
  | none =>
    match s.slabAlloc slab with
    | (s, some ptr) => (s.setBin h c (some slab), some ptr)
    | (s, none) => (s.enqueue h c slab, none)

/-- The loop of `try_adopt`. -/
def HeapSys.adoptLoop (h c : ℕ) :
    ℕ → HeapSys → Option ℕ → Option ℕ → Except HeapFault (HeapSys × Option ℕ)
  | _, s, none, result => .ok (s, result)
  | 0, _, some _, _ => .error .outOfFuel
  | fuel + 1, s, some slab, result => do
    let next := s.links.next slab
    let s ← s.takeOver h c slab
    if (s.headers slab).isFullyFree then
      let s ← s.cacheSlab slab
      adoptLoop h c fuel s next result
    else
      let (s, result) := s.useAdopted h c slab result
      adoptLoop h c fuel s next result

/-- `try_adopt`. -/
def HeapSys.tryAdopt (s : HeapSys) (h c : ℕ) : Except HeapFault (HeapSys × Option ℕ) :=
  HeapSys.adoptLoop h c (s.pool.abandoned c).length { s with pool := s.pool.adoptAll 0 c }
    (s.pool.abandoned c).head? none

/-- `Slab::init` on a page, for a heap. -/
def HeapSys.slabInit (s : HeapSys) (page c id : ℕ) : HeapSys :=
  { s with
    headers := Function.update s.headers page (SlabHeader.init c id)
    links := (s.links.setNext page none).setPrev page none }

/-- `request_slab`. -/
def HeapSys.requestSlab (s : HeapSys) (h c : ℕ) (reply : Option ℕ) :
    Except HeapFault (HeapSys × Option ℕ) := do
  match ← s.tryAdopt h c with
  | (s, some ptr) => .ok (s.count h (·.onAlloc c (classSize c)), some ptr)
  | (s, none) =>
    match s.pool.takeSlab reply with
    | none => .error .badReply
    | some (pool, none) => .ok ({ s with pool := pool }, none)
    | some (pool, some page) =>
      match (HeapSys.slabInit { s with pool := pool } page c (s.heap h).id).slabAlloc page with
      | (s, some ptr) =>
        .ok ((s.setBin h c (some page)).count h (·.onAlloc c (classSize c)), some ptr)
      | (s, none) => .ok (s.setBin h c (some page), none)

/-- The part of `Heap::alloc` behind an empty bin; `again` is its recursive call. -/
def HeapSys.refill (h c : ℕ) (reply : Option ℕ)
    (again : HeapSys → Except HeapFault (HeapSys × Option ℕ)) (s : HeapSys) :
    Except HeapFault (HeapSys × Option ℕ) :=
  match s.tryPartial h c with
  | (s, true) => again s
  | (s, false) => do
    let s ← s.scanFullList h c
    if (s.heap h).bins c ≠ none then again s
    else
      match s.tryPartial h c with
      | (s, true) => again s
      | (s, false) => s.requestSlab h c reply

/-- `Heap::alloc` for a size class; the recursive calls take fuel. -/
def HeapSys.allocClass (h c : ℕ) (reply : Option ℕ) :
    ℕ → HeapSys → Except HeapFault (HeapSys × Option ℕ)
  | 0, _ => .error .outOfFuel
  | fuel + 1, s =>
    match (s.heap h).bins c with
    | none => HeapSys.refill h c reply (fun s => allocClass h c reply fuel s) s
    | some slab =>
      match s.slabAlloc slab with
      | (s, some ptr) => .ok (s.count h (·.onAlloc c (classSize c)), some ptr)
      | (s, none) => do
        let s ← s.drainRemote slab
        match s.slabAlloc slab with
        | (s, some ptr) => .ok (s.count h (·.onAlloc c (classSize c)), some ptr)
        | (s, none) =>
          HeapSys.refill h c reply (fun s => allocClass h c reply fuel s) (s.retireActive h c)

/-- `Heap::alloc`, given the page allocator's answer should it be asked. -/
def HeapSys.alloc (s : HeapSys) (h : ℕ) (layout : Layout) (reply : Option ℕ) :
    Except HeapFault (HeapSys × Option ℕ) :=
  match classIndex layout with
  | none =>
    match s.pool.allocLargeToEnd layout.size layout.align reply with
    | none => .error .badReply
    | some (pool, none) => .ok ({ s with pool := pool }, none)
    | some (pool, some ptr) =>
      .ok (HeapSys.count { s with pool := pool } h (·.onLargeAlloc layout.size), some ptr)
  | some c => HeapSys.allocClass h c reply 2 s

/-- `reclaim_slab`: unlink a fully free slab and return it. -/
def HeapSys.reclaimSlab (s : HeapSys) (slab : ℕ) : Except HeapFault HeapSys := do
  let s ← s.slabListRemove slab
  s.cacheSlab slab

/-- A free into a slab of the heap that is not the active one. -/
def HeapSys.deallocOwn (s : HeapSys) (h c slab ptr : ℕ) : Except HeapFault HeapSys :=
  let s := s.deallocLocal slab ptr
  if (s.headers slab).isFullyFree then s.reclaimSlab slab
  else if (s.headers slab).freeCount = 1 then do
    let s ← s.slabListRemove slab
    .ok (s.promote h c slab)
  else .ok s

/-- `Heap::dealloc`. -/
def HeapSys.dealloc (s : HeapSys) (h ptr : ℕ) (layout : Layout) : Except HeapFault HeapSys :=
  match classIndex layout with
  | none =>
    let s := s.count h (·.onLargeDealloc layout.size)
    .ok { s with pool := s.pool.deallocLargeToEnd ptr layout.size }
  | some c =>
    let s := s.count h (·.onDealloc c (classSize c))
    let slab := slabMask ptr
    if (s.heap h).bins c = some slab then .ok (s.deallocLocal slab ptr)
    else if (s.headers slab).heapId = (s.heap h).id then s.deallocOwn h c slab ptr
    else .ok ((s.count h (·.onRemoteFree 1)).deallocRemote slab ptr)

/-- Return a slab of a heap that ends: to the pool if it is fully free, else to the abandoned
list. -/
def HeapSys.surrender (s : HeapSys) (slab : ℕ) : Except HeapFault HeapSys := do
  let s ← s.drainRemote slab
  if (s.headers slab).isFullyFree then s.cacheSlab slab else .ok (s.abandonSlab slab)

/-- `retire_slab`: give up the active slab of a class. -/
def HeapSys.retireSlab (s : HeapSys) (h c : ℕ) : Except HeapFault HeapSys :=
  match (s.heap h).bins c with
  | some slab => (s.setBin h c none).surrender slab
  | none => .ok s

/-- The loop of `drop` over one queue. -/
def HeapSys.dropQueue (head : QueueHead) : ℕ → HeapSys → Except HeapFault HeapSys
  | fuel, s =>
    match s.slabListPop head with
    | none => .ok s
    | some (slab, s) =>
      match fuel with
      | 0 => .error .outOfFuel
      | fuel + 1 => do
        let s ← s.surrender slab
        dropQueue head fuel s

/-- One round of the loop of `drop` over the classes. -/
def HeapSys.dropClass (h : ℕ) (s : HeapSys) (c : ℕ) : Except HeapFault HeapSys := do
  let s ← s.retireSlab h c
  let s ← HeapSys.dropQueue ⟨h, .full, c⟩ s.pool.inUse.length s
  HeapSys.dropQueue ⟨h, .part, c⟩ s.pool.inUse.length s

/-- `Drop` for a heap. -/
def HeapSys.dropHeap (s : HeapSys) (h : ℕ) : Except HeapFault HeapSys :=
  (List.range numClasses).foldlM (HeapSys.dropClass h) s

/-- `Heap::new`, stored at a handle. The source takes the id from a `usize` that would wrap after
`2 ^ 64` heaps. -/
def HeapSys.newHeap (s : HeapSys) (h : ℕ) : HeapSys :=
  { s with
    heap := Function.update s.heap h ⟨s.nextHeapId, fun _ => none, .zero⟩
    links := { s.links with head := fun q => if q.heap = h then none else s.links.head q }
    nextHeapId := s.nextHeapId + 1 }

/-- No heap yet; the memory holds anything. -/
def HeapSys.new (headers : ℕ → SlabHeader) (next : ℕ → Option ℕ) (links : Links ℕ QueueHead) :
    HeapSys where
  pool := .new
  headers := headers
  next := next
  links := { links with head := fun _ => none }
  heap := fun _ => ⟨0, fun _ => none, .zero⟩
  nextHeapId := 1

/-- Something outside the heaps writes into a page: the pool links free pages, purging clears
them. -/
def HeapSys.scribble (s : HeapSys) (page : ℕ) (header : SlabHeader) (words : ℕ → Option ℕ)
    (nextLink : Option ℕ) (prevLink : Option (Cell ℕ QueueHead)) : HeapSys :=
  { s with
    headers := Function.update s.headers page header
    next := fun p => if slabMask p = page then words p else s.next p
    links := (s.links.setNext page nextLink).setPrev page prevLink }

/-- The heaps, the handles of those alive, and the allocations the program has and has not freed. -/
structure HeapRun where
  sys : HeapSys
  handles : List ℕ
  live : List Allocation

/-- A whole operation of a heap, a write of the program to its memory, or a write of the pool to
free pages. -/
inductive HeapLabel
  | newHeap (h : ℕ)
  | alloc (h : ℕ) (layout : Layout) (reply : Option ℕ)
  | dealloc (h : ℕ) (a : Allocation)
  | dropHeap (h : ℕ)
  | write (a : Allocation) (value : Option ℕ)
  | scribble (page : ℕ) (header : SlabHeader) (words : ℕ → Option ℕ) (nextLink : Option ℕ)
    (prevLink : Option (Cell ℕ QueueHead))

/-- Operations run one at a time on live heaps; the program frees what it has, with the layout it
asked for. -/
def heapStep (r : HeapRun) : HeapLabel → Option HeapRun
  | .newHeap h =>
    if h ∉ r.handles then some { r with sys := r.sys.newHeap h, handles := h :: r.handles }
      else none
  | .alloc h layout reply =>
    if h ∈ r.handles ∧ 1 ≤ layout.size then
      match r.sys.alloc h layout reply with
      | .ok (sys, some ptr) => some { r with sys := sys, live := ⟨ptr, layout⟩ :: r.live }
      | .ok (sys, none) => some { r with sys := sys }
      | .error _ => none
    else none
  | .dealloc h a =>
    if h ∈ r.handles ∧ a ∈ r.live then
      match r.sys.dealloc h a.ptr a.layout with
      | .ok sys => some { r with sys := sys, live := r.live.erase a }
      | .error _ => none
    else none
  | .dropHeap h =>
    if h ∈ r.handles then
      match r.sys.dropHeap h with
      | .ok sys => some { r with sys := sys, handles := r.handles.erase h }
      | .error _ => none
    else none
  | .write a value =>
    if a ∈ r.live ∧ (classIndex a.layout).isSome = true then
      some { r with sys := { r.sys with next := Function.update r.sys.next a.ptr value } }
    else none
  | .scribble page header words nextLink prevLink =>
    if page ∉ r.sys.pool.inUse ∧ ∀ c < numClasses, page ∉ r.sys.pool.abandoned c then
      some { r with sys := r.sys.scribble page header words nextLink prevLink }
    else none

/-- No heap and no allocation yet. -/
def HeapRun.new (headers : ℕ → SlabHeader) (next : ℕ → Option ℕ) (links : Links ℕ QueueHead) :
    HeapRun :=
  ⟨.new headers next links, [], []⟩

end ClMalloc
