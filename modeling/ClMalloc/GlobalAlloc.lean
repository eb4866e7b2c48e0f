import ClMalloc.Heap

/-!
# The global allocator

`ClMalloc` gives each thread a heap on its first allocation, stored where `malloc` of the C
library says and registered with the pool's metrics; the thread's `HEAP` cell points to it.
When the thread ends the destructor deregisters and drops the heap and marks the cell.
A free by a thread without a heap goes straight to the slab or to the pool. Operations run
one at a time, so a snapshot is a function of the state.
-/

namespace ClMalloc

open Intrusive

/-- The `HEAP` cell of a thread: not yet initialised, a heap, or `DESTROYED`. -/
inductive HeapCell
  | null
  | ptr (h : ℕ)
  | destroyed
  deriving DecidableEq

/-- The heaps with the pool, the cells of the threads, and the heaps `malloc` gave room for. -/
structure GlobalSys where
  heaps : HeapSys
  cell : ℕ → HeapCell
  mallocs : List ℕ

/-- How an operation of the global allocator can fail to end. -/
inductive GlobalFault
  | heap (fault : HeapFault)
  | badMalloc
  | registryFull
  | registryBroken
  deriving DecidableEq

/-- Write the pool's metrics and those of the heaps. -/
def HeapSys.setMetrics (s : HeapSys) (m : PoolMetrics) (heaps : ℕ → HeapMetrics) : HeapSys :=
  { s with
    pool := { s.pool with core := { s.pool.core with
      pool := { s.pool.core.pool with metrics := m } } }
    heap := fun h => { s.heap h with metrics := heaps h } }

/-- `PagePool::register_heap`. -/
def HeapSys.registerHeap (s : HeapSys) (h : ℕ) : Option HeapSys :=
  match s.pool.core.pool.metrics.registerHeap (fun h => (s.heap h).metrics) h with
  | some (m, heaps) => some (s.setMetrics m heaps)
  | none => none

/-- `PagePool::deregister_heap`. -/
def HeapSys.deregisterHeap (s : HeapSys) (h : ℕ) : Option HeapSys :=
  match s.pool.core.pool.metrics.deregisterHeap (fun h => (s.heap h).metrics) h with
  | some (m, heaps) => some (s.setMetrics m heaps)
  | none => none

/-- `PagePool::snapshot`. -/
def HeapSys.snapshot (s : HeapSys) : Option MetricsSnapshot :=
  let st := s.pool.core.pool
  let mapped := u64 (st.segmentCount * segmentSize + st.largeMappedBytes)
  match st.metrics.aggregateHeapMetrics (fun h => (s.heap h).metrics) { MetricsSnapshot.new with
    mapped := mapped } with
  | some snapshot =>
    let snapshot := snapshot.finalize
    let largeLive := snapshot.largeAllocBytes - snapshot.largeDeallocBytes
    some { snapshot with active := u64 (st.outstandingSlabs * slabSize + largeLive) }
  | none => none

/-- `init_heap`, given the answer of `malloc`. -/
def GlobalSys.initHeap (g : GlobalSys) (t : ℕ) (malloc : Option ℕ) :
    Except GlobalFault (GlobalSys × Option ℕ) :=
  match malloc with
  | none => .ok (g, none)
  | some h =>
    if h ∈ g.mallocs then .error .badMalloc
    else
      match (g.heaps.newHeap h).registerHeap h with
      | some heaps => .ok (⟨heaps, Function.update g.cell t (.ptr h), h :: g.mallocs⟩, some h)
      | none => .error .registryFull

/-- `Heap::alloc` on the heap of the thread. -/
def GlobalSys.heapAlloc (g : GlobalSys) (h : ℕ) (layout : Layout) (reply : Option ℕ) :
    Except GlobalFault (GlobalSys × Option ℕ) :=
  match g.heaps.alloc h layout reply with
  | .ok (heaps, result) => .ok ({ g with heaps := heaps }, result)
  | .error fault => .error (.heap fault)

/-- `GlobalAlloc::alloc`; a null result is none. -/
def GlobalSys.alloc (g : GlobalSys) (t : ℕ) (layout : Layout) (malloc reply : Option ℕ) :
    Except GlobalFault (GlobalSys × Option ℕ) :=
  if layout.size = 0 then .ok (g, some layout.align)
  else
    match g.cell t with
    | .destroyed => .ok (g, none)
    | .ptr h => g.heapAlloc h layout reply
    | .null =>
      match g.initHeap t malloc with
      | .ok (g, some h) => g.heapAlloc h layout reply
      | .ok (g, none) => .ok (g, none)
      | .error fault => .error fault

/-- A free by a thread without a heap. -/
def GlobalSys.deallocDirect (g : GlobalSys) (ptr : ℕ) (layout : Layout) : GlobalSys :=
  match classIndex layout with
  | some _ => { g with heaps := g.heaps.deallocRemote (slabMask ptr) ptr }
  | none =>
    { g with heaps := { g.heaps with pool := g.heaps.pool.deallocLargeToEnd ptr layout.size } }

/-- `GlobalAlloc::dealloc`. -/
def GlobalSys.dealloc (g : GlobalSys) (t ptr : ℕ) (layout : Layout) :
    Except GlobalFault GlobalSys :=
  if layout.size = 0 then .ok g
  else
    match g.cell t with
    | .ptr h =>
      match g.heaps.dealloc h ptr layout with
      | .ok heaps => .ok { g with heaps := heaps }
      | .error fault => .error (.heap fault)
    | _ => .ok (g.deallocDirect ptr layout)

/-- `heap_destructor`, called when the thread ends if its cell points to a heap. -/
def GlobalSys.heapDestructor (g : GlobalSys) (t h : ℕ) : Except GlobalFault GlobalSys :=
  match g.heaps.deregisterHeap h with
  | none => .error .registryBroken
  | some heaps =>
    match heaps.dropHeap h with
    | .ok heaps => .ok ⟨heaps, Function.update g.cell t .destroyed, g.mallocs.erase h⟩
    | .error fault => .error (.heap fault)

/-- A thread ends. -/
def GlobalSys.exit (g : GlobalSys) (t : ℕ) : Except GlobalFault GlobalSys :=
  match g.cell t with
  | .ptr h => g.heapDestructor t h
  | _ => .ok g

/-- A thread given a heap no other thread has still shares its heap with none. -/
theorem cells_assign {cell : ℕ → HeapCell} {t h : ℕ} (hnew : ∀ t', cell t' ≠ .ptr h)
    (hdiffer : ∀ t₁ t₂ h', cell t₁ = .ptr h' → cell t₂ = .ptr h' → t₁ = t₂) {t₁ t₂ h' : ℕ}
    (ht₁ : Function.update cell t (.ptr h) t₁ = .ptr h')
    (ht₂ : Function.update cell t (.ptr h) t₂ = .ptr h') :
    t₁ = t₂ := by
  by_cases ht₁' : t₁ = t
  · by_cases ht₂' : t₂ = t
    · exact ht₁'.trans ht₂'.symm
    · subst ht₁'
      simp only [Function.update_self, HeapCell.ptr.injEq] at ht₁
      rw [Function.update_of_ne ht₂', ← ht₁] at ht₂
      exact absurd ht₂ (hnew t₂)
  · rw [Function.update_of_ne ht₁'] at ht₁
    by_cases ht₂' : t₂ = t
    · subst ht₂'
      simp only [Function.update_self, HeapCell.ptr.injEq] at ht₂
      rw [← ht₂] at ht₁
      exact absurd ht₁ (hnew t₁)
    · rw [Function.update_of_ne ht₂'] at ht₂
      exact hdiffer t₁ t₂ h' ht₁ ht₂

/-- A thread that points to a heap after another one ended did so before. -/
theorem cell_of_destroyed {cell : ℕ → HeapCell} {t t' h : ℕ}
    (hptr : Function.update cell t .destroyed t' = .ptr h) :
    t' ≠ t ∧ cell t' = .ptr h := by
  have ht : t' ≠ t := by
    rintro rfl
    simp at hptr
  exact ⟨ht, by rwa [Function.update_of_ne ht] at hptr⟩

/-- A thread that points to a heap after one got a heap did so before, or the heap is that one. -/
theorem cell_of_assigned {cell : ℕ → HeapCell} {t t' h h' : ℕ}
    (hptr : Function.update cell t (.ptr h) t' = .ptr h') : h' = h ∨ cell t' = .ptr h' := by
  by_cases ht : t' = t
  · subst ht
    rw [Function.update_self, HeapCell.ptr.injEq] at hptr
    exact .inl hptr.symm
  · exact .inr (by rwa [Function.update_of_ne ht] at hptr)

/-- The allocator, and the allocations of at least one byte the program has and has not freed. -/
structure GlobalRun where
  sys : GlobalSys
  live : List Allocation

/-- A whole operation by a thread or its end, a write of the program to its memory, or a write of
the pool to free pages. -/
inductive GlobalLabel
  | alloc (t : ℕ) (layout : Layout) (malloc reply : Option ℕ)
  | dealloc (t : ℕ) (a : Allocation)
  | exit (t : ℕ)
  | write (a : Allocation) (value : Option ℕ)
  | scribble (page : ℕ) (header : SlabHeader) (words : ℕ → Option ℕ) (nextLink : Option ℕ)
    (prevLink : Option (Cell ℕ QueueHead))

/-- Operations run one at a time; the program frees what it has, with the layout it asked for. -/
def globalStep (r : GlobalRun) : GlobalLabel → Option GlobalRun
  | .alloc t layout malloc reply =>
    match r.sys.alloc t layout malloc reply with
    | .ok (sys, some ptr) =>
      some ⟨sys, if layout.size = 0 then r.live else ⟨ptr, layout⟩ :: r.live⟩
    | .ok (sys, none) => some { r with sys := sys }
    | .error _ => none
  | .dealloc t a =>
    if a ∈ r.live ∨ a.layout.size = 0 then
      match r.sys.dealloc t a.ptr a.layout with
      | .ok sys => some ⟨sys, r.live.erase a⟩
      | .error _ => none
    else none
  | .exit t =>
    match r.sys.exit t with
    | .ok sys => some { r with sys := sys }
    | .error _ => none
  | .write a value =>
    if a ∈ r.live ∧ (classIndex a.layout).isSome = true then
      some { r with sys.heaps.next := Function.update r.sys.heaps.next a.ptr value }
    else none
  | .scribble page header words nextLink prevLink =>
    if page ∉ r.sys.heaps.pool.inUse ∧ ∀ c < numClasses, page ∉ r.sys.heaps.pool.abandoned c then
      some { r with sys.heaps := r.sys.heaps.scribble page header words nextLink prevLink }
    else none

/-- What an operation can do. An allocation of no bytes does nothing, and so does a free of none
that is not live. -/
inductive GlobalStepped (r : GlobalRun) : GlobalLabel → GlobalRun → Prop
  | allocEmpty {t : ℕ} {layout : Layout} {malloc reply : Option ℕ} (hsize : layout.size = 0) :
    GlobalStepped r (.alloc t layout malloc reply) r
  | alloc {t ptr : ℕ} {layout : Layout} {malloc reply : Option ℕ}
      {sys : GlobalSys} (hsize : layout.size ≠ 0)
    (halloc : r.sys.alloc t layout malloc reply = .ok (sys, some ptr)) :
    GlobalStepped r (.alloc t layout malloc reply) ⟨sys, ⟨ptr, layout⟩ :: r.live⟩
  | allocNull {t : ℕ} {layout : Layout} {malloc reply : Option ℕ}
      {sys : GlobalSys} (hsize : layout.size ≠ 0)
    (halloc : r.sys.alloc t layout malloc reply = .ok (sys, none)) :
    GlobalStepped r (.alloc t layout malloc reply) { r with sys := sys }
  | deallocEmpty {t : ℕ} {a : Allocation} (hlive : a ∉ r.live) (hsize : a.layout.size = 0) :
    GlobalStepped r (.dealloc t a) r
  | dealloc {t : ℕ} {a : Allocation} {sys : GlobalSys} (hlive : a ∈ r.live)
    (hdealloc : r.sys.dealloc t a.ptr a.layout = .ok sys) :
    GlobalStepped r (.dealloc t a) ⟨sys, r.live.erase a⟩
  | exit {t : ℕ} {sys : GlobalSys} (hexit : r.sys.exit t = .ok sys) :
    GlobalStepped r (.exit t) { r with sys := sys }
  | write {a : Allocation} {value : Option ℕ} (hlive : a ∈ r.live)
      (hclass : (classIndex a.layout).isSome = true) :
    GlobalStepped r (.write a value)
      { r with sys.heaps.next := Function.update r.sys.heaps.next a.ptr value }
  | scribble {page : ℕ} {header : SlabHeader} {words : ℕ → Option ℕ} {nextLink : Option ℕ}
    {prevLink : Option (Cell ℕ QueueHead)} (hunused : page ∉ r.sys.heaps.pool.inUse)
    (hkept : ∀ c < numClasses, page ∉ r.sys.heaps.pool.abandoned c) :
    GlobalStepped r (.scribble page header words nextLink prevLink)
      { r with sys.heaps := r.sys.heaps.scribble page header words nextLink prevLink }

/-- Every operation does one of these. -/
theorem globalStep_cases {r r' : GlobalRun} {label : GlobalLabel}
    (hstep : globalStep r label = some r') :
    GlobalStepped r label r' := by
  cases label with
  | alloc t layout malloc reply =>
    simp only [globalStep] at hstep
    by_cases hsize : layout.size = 0
    · simp only [GlobalSys.alloc, hsize, if_true] at hstep
      cases hstep
      exact .allocEmpty hsize
    · split at hstep <;> cases hstep
      · rw [if_neg hsize]
        exact .alloc hsize ‹_›
      · exact .allocNull hsize ‹_›
  | dealloc t a =>
    simp only [globalStep] at hstep
    split at hstep <;> try contradiction
    case isTrue hguard =>
      split at hstep <;> cases hstep
      case h_1 sys hdealloc =>
        by_cases hlive : a ∈ r.live
        · exact .dealloc hlive hdealloc
        · have hsize := hguard.resolve_left hlive
          simp only [GlobalSys.dealloc, hsize, if_true] at hdealloc
          cases hdealloc
          rw [List.erase_of_not_mem hlive]
          exact .deallocEmpty hlive hsize
  | exit t =>
    simp only [globalStep] at hstep
    split at hstep <;> cases hstep
    exact .exit ‹_›
  | write a value =>
    simp only [globalStep] at hstep
    split at hstep <;> cases hstep
    rename_i hguard
    exact .write hguard.1 hguard.2
  | scribble page header words nextLink prevLink =>
    simp only [globalStep] at hstep
    split at hstep <;> cases hstep
    rename_i hguard
    exact .scribble hguard.1 hguard.2

/-- `ClMalloc::new`, before any thread has called it. -/
def GlobalRun.new (headers : ℕ → SlabHeader) (next : ℕ → Option ℕ) (links : Links ℕ QueueHead) :
    GlobalRun :=
  ⟨⟨.new headers next links, fun _ => .null, []⟩, []⟩

end ClMalloc
