import ClMalloc.GlobalAlloc
import ClMalloc.HeapBooks
import ClMalloc.Lib.Transition

/-!
# What a snapshot says about the live allocations

The heap of a thread counts every allocation it serves and every free it performs, in
whatever thread the memory was allocated; the registry sums the heaps. So as long as every
free is made by a thread that has a heap, and the bytes ever allocated fit in 64 bits, the
gauges of a snapshot are the live allocations. `ClMalloc::dealloc` by a thread that has no
heap counts nowhere, and the gauges drift.
-/

namespace ClMalloc

open Transition Intrusive

/-- The bytes an allocation is counted with. -/
def servedBytes (layout : Layout) : ℕ :=
  match classIndex layout with
  | some c => classSize c
  | none => layout.size

/-- The bytes of the live allocations. -/
def liveBytes (live : List Allocation) : ℕ := (live.map fun a => servedBytes a.layout).sum

/-- The number of live allocations of a class. -/
def liveCount (live : List Allocation) (i : ℕ) : ℕ :=
  live.countP fun a => classIndex a.layout = some i

/-- What an allocation adds to a counter. -/
def allocAmount (layout : Layout) : Counter → ℕ
  | .allocBytes => servedBytes layout
  | .classAllocCount i => if classIndex layout = some i then 1 else 0
  | .classAllocBytes i => if classIndex layout = some i then servedBytes layout else 0
  | .largeAllocCount => if classIndex layout = none then 1 else 0
  | .largeAllocBytes => if classIndex layout = none then servedBytes layout else 0
  | _ => 0

/-- What a free adds to a counter. -/
def freeAmount (layout : Layout) (remote : Bool) : Counter → ℕ
  | .freeBytes => servedBytes layout
  | .classDeallocCount i => if classIndex layout = some i then 1 else 0
  | .classFreeBytes i => if classIndex layout = some i then servedBytes layout else 0
  | .largeDeallocBytes => if classIndex layout = none then servedBytes layout else 0
  | .remoteFreeCount => if (classIndex layout).isSome = true ∧ remote = true then 1 else 0
  | _ => 0

/-- What `alloc` counts for a layout is what the allocation adds. -/
theorem onServed_counter (layout : Layout) (m : HeapMetrics) (k : Counter) :
    u64 ((onServed layout m).counter k) = u64 (m.counter k + allocAmount layout k) := by
  cases hclass : classIndex layout with
  | none =>
    cases k <;> simp [onServed, hclass, allocAmount, servedBytes, HeapMetrics.counter,
      HeapMetrics.onLargeAlloc, inc, u64_u64]
  | some c =>
    cases k <;> simp [onServed, hclass, allocAmount, servedBytes, HeapMetrics.counter,
      HeapMetrics.onAlloc, inc, u64_u64, u64_incAt]

/-- What `dealloc` counts for a layout is what the free adds. -/
theorem onFreed_counter (layout : Layout) (remote : Bool) (m : HeapMetrics) (k : Counter) :
    u64 ((onFreed layout remote m).counter k) = u64 (m.counter k + freeAmount layout remote k) := by
  cases hclass : classIndex layout with
  | none =>
    cases k <;> simp [onFreed, hclass, freeAmount, servedBytes, HeapMetrics.counter,
      HeapMetrics.onLargeDealloc, inc, u64_u64]
  | some c =>
    cases remote <;> cases k <;> simp [onFreed, hclass, freeAmount, servedBytes,
      HeapMetrics.counter, HeapMetrics.onDealloc, HeapMetrics.onRemoteFree, inc, u64_u64, u64_incAt]

/-- Counting an allocation leaves the registry position. -/
theorem onServed_registryIdx (layout : Layout) (m : HeapMetrics) :
    (onServed layout m).registryIdx = m.registryIdx := by
  unfold onServed
  split <;> rfl

/-- Counting a free leaves the registry position. -/
theorem onFreed_registryIdx (layout : Layout) (remote : Bool) (m : HeapMetrics) :
    (onFreed layout remote m).registryIdx = m.registryIdx := by
  unfold onFreed
  split
  · split <;> rfl
  · rfl

/-- An allocation of a class is counted with at least eight bytes. -/
theorem le_servedBytes {layout : Layout} {i : ℕ} (hclass : classIndex layout = some i) :
    8 ≤ servedBytes layout := by
  simp only [servedBytes, hclass]
  exact (slab_geometry i).1

/-- The sum of a counter over all heaps. -/
def Books.total (b : Books) (entries : List ℕ) (k : Counter) : ℕ :=
  b.registry.total b.metrics entries k

/-- Sums are reduced to 64 bits. -/
theorem Books.total_lt (b : Books) (entries : List ℕ) (k : Counter) :
    b.total entries k < 0x10000000000000000 :=
  Nat.mod_lt _ (by decide)

/-- The registry is in order, and the counters differ by what is live. -/
structure CountInv (b : Books) (live : List Allocation) (entries : List ℕ) : Prop where
  registry : RegistryInv b.registry b.metrics entries
  bytes : b.total entries .allocBytes = liveBytes live + b.total entries .freeBytes
  counts : ∀ i, b.total entries (.classAllocCount i) = liveCount live i + b.total entries
    (.classDeallocCount i)
  eight : ∀ i, 8 * b.total entries (.classAllocCount i) ≤ b.total entries .allocBytes

variable {b b' : Books} {live : List Allocation} {entries entries' : List ℕ} {h t ptr : ℕ}
  {a : Allocation} {layout : Layout}

/-- The books with something counted for a heap. -/
def Books.count (b : Books) (h : ℕ) (f : HeapMetrics → HeapMetrics) : Books :=
  ⟨b.registry, Function.update b.metrics h (f (b.metrics h))⟩

/-- Counting adds to the sums. -/
theorem RegistryInv.total_count (hreg : RegistryInv b.registry b.metrics entries)
    (hmem : h ∈ entries) {f : HeapMetrics → HeapMetrics} {amount : Counter → ℕ}
    (hcounter : ∀ m k, u64 ((f m).counter k) = u64 (m.counter k + amount k)) (k : Counter) :
    (b.count h f).total entries k = u64 (b.total entries k + amount k) :=
  HeapRegistry.total_update hreg.nodup hmem (hcounter _ k)

/-- Counting leaves the registry in order. -/
theorem RegistryInv.count_books (hreg : RegistryInv b.registry b.metrics entries)
    {f : HeapMetrics → HeapMetrics} (hidx : ∀ m, (f m).registryIdx = m.registryIdx) (h : ℕ) :
    RegistryInv (b.count h f).registry (b.count h f).metrics entries := by
  refine hreg.congr fun h' _ => ?_
  by_cases hh : h' = h
  · subst hh
    simp [Books.count, hidx]
  · simp [Books.count, hh]

/-- Counting an allocation that fits keeps the books in order. -/
theorem CountInv.alloc (hinv : CountInv b live entries) (hmem : h ∈ entries)
    (hfits : b.total entries .allocBytes + servedBytes layout < 0x10000000000000000) (ptr : ℕ) :
    CountInv (b.count h (onServed layout)) (⟨ptr, layout⟩ :: live) entries := by
  have htotal := hinv.registry.total_count hmem (onServed_counter layout)
  have hbytes := hinv.bytes
  have hlive : liveBytes (⟨ptr, layout⟩ :: live) = servedBytes layout + liveBytes live := by
    simp [liveBytes]
  have hfree := b.total_lt entries .freeBytes
  refine ⟨hinv.registry.count_books (onServed_registryIdx layout) h, ?_, fun i => ?_, fun i => ?_⟩
  · rw [htotal, htotal, hlive]
    simp only [allocAmount, Nat.add_zero]
    rw [u64_of_lt hfits, u64_of_lt hfree]
    omega
  · have hcount := hinv.counts i
    have height := hinv.eight i
    have hdealloc := b.total_lt entries (.classDeallocCount i)
    rw [htotal, htotal]
    simp only [allocAmount, Nat.add_zero, liveCount, List.countP_cons, decide_eq_true_eq]
    rw [u64_of_lt hdealloc, u64_of_lt]
    · unfold liveCount at hcount
      omega
    · split <;> omega
  · have height := hinv.eight i
    rw [htotal, htotal]
    simp only [allocAmount]
    rw [u64_of_lt hfits]
    by_cases hclass : classIndex layout = some i
    · have hmin := le_servedBytes hclass
      rw [if_pos hclass, u64_of_lt (by omega)]
      omega
    · have hlt := b.total_lt entries (.classAllocCount i)
      rw [if_neg hclass, Nat.add_zero, u64_of_lt hlt]
      omega

/-- Counting the free of a live allocation keeps the books in order. -/
theorem CountInv.free (hinv : CountInv b live entries) (hmem : h ∈ entries) (ha : a ∈ live)
    (remote : Bool) :
    CountInv (b.count h (onFreed a.layout remote)) (live.erase a) entries := by
  have htotal := hinv.registry.total_count hmem (onFreed_counter a.layout remote)
  have hbytes := hinv.bytes
  have hperm := List.perm_cons_erase ha
  have hlive : liveBytes live = servedBytes a.layout + liveBytes (live.erase a) := by
    unfold liveBytes
    rw [(hperm.map _).sum_eq, List.map_cons, List.sum_cons]
  have halloc := b.total_lt entries .allocBytes
  refine ⟨hinv.registry.count_books (onFreed_registryIdx a.layout remote) h, ?_,
    fun i => ?_, fun i => ?_⟩
  · rw [htotal, htotal]
    simp only [freeAmount, Nat.add_zero]
    rw [u64_of_lt halloc, u64_of_lt (by omega)]
    omega
  · have hcount := hinv.counts i
    have hlt := b.total_lt entries (.classAllocCount i)
    have hlen : liveCount live i = liveCount (live.erase a) i +
        if classIndex a.layout = some i then 1 else 0 := by
      unfold liveCount
      rw [hperm.countP_eq, List.countP_cons]
      simp
    rw [htotal, htotal]
    simp only [freeAmount, Nat.add_zero]
    rw [u64_of_lt hlt, u64_of_lt (by omega)]
    omega
  · have height := hinv.eight i
    have hlt := b.total_lt entries (.classAllocCount i)
    rw [htotal, htotal]
    simp only [freeAmount, Nat.add_zero]
    rw [u64_of_lt hlt, u64_of_lt halloc]
    exact height

/-- Registering and deregistering keep the sums. -/
theorem CountInv.congr (hinv : CountInv b live entries)
    (hreg : RegistryInv b'.registry b'.metrics entries')
    (htotal : ∀ k, b'.total entries' k = b.total entries k) : CountInv b' live entries' where
  registry := hreg
  bytes := by rw [htotal, htotal]; exact hinv.bytes
  counts := fun i => by rw [htotal, htotal]; exact hinv.counts i
  eight := fun i => by rw [htotal, htotal]; exact hinv.eight i

/-- The threads' cells point to registered heaps, one each, and the books are in order. -/
structure GlobalInv (g : GlobalSys) (live : List Allocation) (entries : List ℕ) : Prop where
  count : CountInv g.heaps.books live entries
  mallocs : ∀ h, h ∈ entries ↔ h ∈ g.mallocs
  mallocsOnce : g.mallocs.Nodup
  cells : ∀ t h, g.cell t = .ptr h → h ∈ entries
  cellsDiffer : ∀ t t' h, g.cell t = .ptr h → g.cell t' = .ptr h → t = t'

variable {g g' : GlobalSys} {result reply malloc : Option ℕ}

/-- Before the first call nothing is counted. -/
theorem globalInv_new (headers : ℕ → SlabHeader) (next : ℕ → Option ℕ) (links : Links ℕ QueueHead) :
    GlobalInv (GlobalRun.new headers next links).sys [] [] := by
  have htotal (k : Counter) : (GlobalRun.new headers next links).sys.heaps.books.total [] k =
      0 := by
    cases k <;> rfl
  refine ⟨⟨registryInv_new _, ?_, fun i => ?_, fun i => ?_⟩, by simp [GlobalRun.new],
    List.nodup_nil, ?_, ?_⟩
  · rw [htotal, htotal]
    rfl
  · rw [htotal, htotal]
    rfl
  · rw [htotal, htotal]
  · intro t h hcell
    cases hcell
  · intro t t' h hcell
    cases hcell

/-- Creating and registering a heap appends it to the registry, with nothing counted. -/
theorem HeapSys.newHeap_registerHeap {s s' : HeapSys}
    (hreg : RegistryInv s.books.registry s.books.metrics entries) (hnew : h ∉ entries)
    (hregister : (s.newHeap h).registerHeap h = some s') :
    RegistryInv s'.books.registry s'.books.metrics (entries ++ [h]) ∧
      (∀ k, s'.books.total (entries ++ [h]) k = s.books.total entries k) ∧
      (∀ h' ≠ h, ∀ k, (s'.heap h').metrics.counter k = (s.heap h').metrics.counter k) ∧
      ∀ k, (s'.heap h).metrics.counter k = 0 := by
  unfold HeapSys.registerHeap at hregister
  split at hregister <;> try contradiction
  case h_1 m metrics hregister' =>
    cases hregister
    have hother (h' : ℕ) (hh' : h' ≠ h) : (s.newHeap h).heap h' = s.heap h' :=
      Function.update_of_ne hh' _ _
    have hin (h' : ℕ) (hh' : h' ∈ entries) : (s.newHeap h).heap h' = s.heap h' := by
      refine hother h' ?_
      rintro rfl
      exact hnew hh'
    have hbefore : RegistryInv (s.newHeap h).pool.core.pool.metrics.registry
        (fun h' => ((s.newHeap h).heap h').metrics) entries :=
      hreg.congr fun h' hh' => by
        rw [hin h' hh']
        rfl
    have hzero (k : Counter) : ((s.newHeap h).heap h).metrics.counter k = 0 := by
      simp [HeapSys.newHeap, HeapMetrics.zero_counter]
    obtain ⟨hafter, hcounter, htotal⟩ := hbefore.registerHeap hnew hzero hregister'
    refine ⟨hafter, fun k => ?_, fun h' hh' k => ?_, fun k => (hcounter h k).trans (hzero k)⟩
    · refine (htotal k).trans (HeapRegistry.total_congr (fun h' hh' k => ?_) k)
      rw [hin h' hh']
      rfl
    · refine (hcounter h' k).trans ?_
      rw [hother h' hh']

/-- Deregistering a registered heap takes it out of the registry and changes no counter and no
total. -/
theorem HeapSys.deregisterHeap_registered {s : HeapSys}
    (hreg : RegistryInv s.books.registry s.books.metrics entries) (hmem : h ∈ entries) :
    ∃ s' entries', s.deregisterHeap h = some s' ∧
      RegistryInv s'.books.registry s'.books.metrics entries' ∧
      (∀ h', h' ∈ entries' ↔ h' ∈ entries ∧ h' ≠ h) ∧
        (∀ k, s'.books.total entries' k = s.books.total entries k) ∧
      ∀ h' k, (s'.heap h').metrics.counter k = (s.heap h').metrics.counter k := by
  obtain ⟨m, metrics, entries', heq, hgone⟩ := RegistryInv.deregisterHeap hreg hmem
  refine ⟨s.setMetrics m metrics, entries', ?_, hgone.inv, hgone.mem, hgone.totals, hgone.counters⟩
  unfold HeapSys.deregisterHeap
  rw [show s.pool.core.pool.metrics.deregisterHeap (fun h => (s.heap h).metrics) h = _ from heq]

/-- `init_heap` registers a heap with nothing counted. -/
theorem GlobalInv.initHeap (hinv : GlobalInv g live entries)
    (hinit : g.initHeap t malloc = .ok (g', result)) :
    ∃ entries', GlobalInv g' live entries' ∧ (∀ h, result = some h → h ∈ entries') ∧
      ∀ k, g'.heaps.books.total entries' k = g.heaps.books.total entries k := by
  unfold GlobalSys.initHeap at hinit
  split at hinit
  · cases hinit
    exact ⟨entries, hinv, by simp, fun _ => rfl⟩
  · rename_i h
    split at hinit
    · cases hinit
    · rename_i hfresh
      split at hinit <;> try contradiction
      case h_1 heaps hregister =>
        cases hinit
        have hnew : h ∉ entries := fun hin => hfresh ((hinv.mallocs h).mp hin)
        obtain ⟨hreg', hsame, -, -⟩ :=
          HeapSys.newHeap_registerHeap hinv.count.registry hnew hregister
        refine ⟨entries ++ [h], ⟨hinv.count.congr hreg' hsame, fun h' => ?_, ?_,
          fun t' h' ht' => ?_, fun t₁ t₂ h' => ?_⟩, ?_, hsame⟩
        · simp [hinv.mallocs h', or_comm]
        · exact List.nodup_cons.mpr ⟨hfresh, hinv.mallocsOnce⟩
        · rcases cell_of_assigned ht' with rfl | hold
          · exact List.mem_append_right _ List.mem_cons_self
          · exact List.mem_append_left _ (hinv.cells t' h' hold)
        · exact cells_assign (fun t' hptr => hnew (hinv.cells t' h hptr)) hinv.cellsDiffer
        · rintro _ ⟨⟩
          simp

/-- The heap of a thread counts what it serves. -/
theorem GlobalInv.heapAlloc (hinv : GlobalInv g live entries) (hmem : h ∈ entries)
    (hfits : g.heaps.books.total entries .allocBytes + servedBytes layout < 0x10000000000000000)
    (halloc : g.heapAlloc h layout reply = .ok (g', result)) :
    GlobalInv g' ((result.map fun ptr => ⟨ptr, layout⟩).toList ++ live) entries := by
  unfold GlobalSys.heapAlloc at halloc
  split at halloc <;> try contradiction
  case h_1 heaps result' hserved =>
    cases halloc
    have hbooks := HeapSys.alloc_books hserved
    refine ⟨?_, hinv.mallocs, hinv.mallocsOnce, hinv.cells, hinv.cellsDiffer⟩
    change CountInv heaps.books _ entries
    cases result with
    | none =>
      rw [hbooks]
      exact hinv.count
    | some ptr =>
      rw [hbooks, HeapSys.served, HeapSys.count_books]
      exact hinv.count.alloc hmem hfits ptr

/-- `GlobalAlloc::alloc` counts what it returns. -/
theorem GlobalInv.alloc (hinv : GlobalInv g live entries) (hsize : layout.size ≠ 0)
    (hfits : g.heaps.books.total entries .allocBytes + servedBytes layout < 0x10000000000000000)
    (halloc : g.alloc t layout malloc reply = .ok (g', result)) :
    ∃ entries', GlobalInv g' ((result.map fun ptr => ⟨ptr, layout⟩).toList ++ live) entries' := by
  unfold GlobalSys.alloc at halloc
  rw [if_neg hsize] at halloc
  split at halloc
  case h_1 =>
    cases halloc
    exact ⟨entries, hinv⟩
  case h_2 h hcell => exact ⟨entries, hinv.heapAlloc (hinv.cells t h hcell) hfits halloc⟩
  case h_3 =>
    split at halloc <;> try contradiction
    case h_1 g₁ h hinit =>
      obtain ⟨entries', hinv', hmem, htotal⟩ := hinv.initHeap hinit
      exact ⟨entries', hinv'.heapAlloc (hmem h rfl) (by rw [htotal]; exact hfits) halloc⟩
    case h_2 g₁ hinit =>
      cases halloc
      obtain ⟨entries', hinv', -, -⟩ := hinv.initHeap hinit
      exact ⟨entries', hinv'⟩

/-- `GlobalAlloc::dealloc` by a thread with a heap counts the free. -/
theorem GlobalInv.dealloc (hinv : GlobalInv g live entries) (ha : a ∈ live)
    (hsize : a.layout.size ≠ 0) (hcell : g.cell t = .ptr h)
    (hdealloc : g.dealloc t a.ptr a.layout = .ok g') :
    GlobalInv g' (live.erase a) entries := by
  unfold GlobalSys.dealloc at hdealloc
  rw [if_neg hsize, hcell] at hdealloc
  simp only at hdealloc
  split at hdealloc <;> try contradiction
  case h_1 heaps hfreed =>
    cases hdealloc
    obtain ⟨remote, hbooks⟩ := HeapSys.dealloc_books hfreed
    refine ⟨?_, hinv.mallocs, hinv.mallocsOnce, hinv.cells, hinv.cellsDiffer⟩
    change CountInv heaps.books _ entries
    rw [hbooks, HeapSys.count_books]
    exact hinv.count.free (hinv.cells t h hcell) ha remote

/-- The end of a thread passes what its heap counted to the dead heaps. -/
theorem GlobalInv.exit (hinv : GlobalInv g live entries) (hexit : g.exit t = .ok g') :
    ∃ entries', GlobalInv g' live entries' := by
  unfold GlobalSys.exit at hexit
  split at hexit
  case h_1 h hcell =>
    unfold GlobalSys.heapDestructor at hexit
    split at hexit <;> try contradiction
    case h_2 heaps hderegister =>
      split at hexit <;> try contradiction
      case h_1 heaps' hdrop =>
        cases hexit
        obtain ⟨s, entries', heq, hreg, hmem, htotal, -⟩ :=
          HeapSys.deregisterHeap_registered hinv.count.registry (hinv.cells t h hcell)
        cases hderegister.symm.trans heq
        refine ⟨entries', ⟨?_, fun h' => ?_, hinv.mallocsOnce.erase h, fun t' h' ht' => ?_,
          fun t₁ t₂ h' ht₁ ht₂ => ?_⟩⟩
        · change CountInv heaps'.books live entries'
          rw [HeapSys.dropHeap_books hdrop]
          exact hinv.count.congr hreg htotal
        · change h' ∈ entries' ↔ h' ∈ g.mallocs.erase h
          rw [hmem, hinv.mallocsOnce.mem_erase_iff, hinv.mallocs, and_comm]
        · obtain ⟨ht, hptr⟩ := cell_of_destroyed ht'
          refine (hmem h').mpr ⟨hinv.cells t' h' hptr, ?_⟩
          rintro rfl
          exact ht (hinv.cellsDiffer t' t h' hptr hcell)
        · exact hinv.cellsDiffer t₁ t₂ h' (cell_of_destroyed ht₁).2 (cell_of_destroyed ht₂).2
  case h_2 =>
    cases hexit
    exact ⟨entries, hinv⟩

/-- The bytes all heaps have counted as allocated, before any wrap-around of their sum. -/
def Books.allocBytes (b : Books) : ℕ :=
  b.registry.dead.allocBytes + (b.registry.registered.map fun h => (b.metrics h).allocBytes).sum

/-- The step is counted: a free is made by a thread with a heap, and the bytes allocated still fit
in 64 bits. -/
def Counted (r : GlobalRun) : GlobalLabel → Prop
  | .alloc _ layout _ _ =>
    layout.size = 0 ∨ r.sys.heaps.books.allocBytes + servedBytes layout < 0x10000000000000000
  | .dealloc t a => a.layout.size = 0 ∨ (r.sys.cell t ≠ .null ∧ r.sys.cell t ≠ .destroyed)
  | _ => True

/-- Whether a step is counted can be computed. -/
instance decidableCounted (r : GlobalRun) : (label : GlobalLabel) → Decidable (Counted r label)
  | .alloc _ layout _ _ => inferInstanceAs
    (Decidable (layout.size = 0 ∨ r.sys.heaps.books.allocBytes + servedBytes layout <
      0x10000000000000000))
  | .dealloc t a => inferInstanceAs
    (Decidable (a.layout.size = 0 ∨ (r.sys.cell t ≠ .null ∧ r.sys.cell t ≠ .destroyed)))
  | .exit _ | .write _ _ | .scribble _ _ _ _ _ => isTrue trivial

/-- The gauges of a snapshot are the live allocations. -/
def GlobalRun.Accurate (r : GlobalRun) : Prop :=
  ∃ snapshot, r.sys.heaps.snapshot = some snapshot ∧ snapshot.allocated = liveBytes r.live ∧
    ∀ i < numClasses, snapshot.classLiveCount i = liveCount r.live i

variable {r r' : GlobalRun}

/-- The allocations that are live have a size. -/
structure RunInv (r : GlobalRun) (entries : List ℕ) : Prop where
  inv : GlobalInv r.sys r.live entries
  sizes : ∀ a ∈ r.live, a.layout.size ≠ 0

/-- A step that is counted keeps the books in order. -/
theorem RunInv.step {label : GlobalLabel} (hinv : RunInv r entries) (hcounted : Counted r label)
    (hstep : globalStep r label = some r') : ∃ entries', RunInv r' entries' := by
  have hfits {t : ℕ} {layout : Layout} {malloc reply : Option ℕ} (hsize : layout.size ≠ 0)
      (hcounted : Counted r (.alloc t layout malloc reply)) :
      r.sys.heaps.books.total entries .allocBytes + servedBytes layout < 0x10000000000000000 := by
    have hle : r.sys.heaps.books.total entries .allocBytes ≤ r.sys.heaps.books.allocBytes := by
      rw [Books.allocBytes, hinv.inv.count.registry.registered]
      exact Nat.mod_le _ _
    have := hcounted.resolve_left hsize
    omega
  cases globalStep_cases hstep with
  | allocEmpty => exact ⟨entries, hinv⟩
  | alloc hsize halloc =>
    obtain ⟨entries', hinv'⟩ := hinv.inv.alloc hsize (hfits hsize hcounted) halloc
    refine ⟨entries', hinv', fun a ha => ?_⟩
    rcases List.mem_cons.mp ha with rfl | hin
    · exact hsize
    · exact hinv.sizes a hin
  | allocNull hsize halloc =>
    obtain ⟨entries', hinv'⟩ := hinv.inv.alloc hsize (hfits hsize hcounted) halloc
    exact ⟨entries', hinv', hinv.sizes⟩
  | deallocEmpty => exact ⟨entries, hinv⟩
  | @dealloc t a sys hlive hdealloc =>
    have hsize := hinv.sizes a hlive
    obtain ⟨hnull, hdestroyed⟩ := hcounted.resolve_left hsize
    cases hcell : r.sys.cell t with
    | null => exact absurd hcell hnull
    | destroyed => exact absurd hcell hdestroyed
    | ptr h =>
      exact ⟨entries, hinv.inv.dealloc hlive hsize hcell hdealloc, fun b hb =>
        hinv.sizes b (List.mem_of_mem_erase hb)⟩
  | exit hexit =>
    obtain ⟨entries', hinv'⟩ := hinv.inv.exit hexit
    exact ⟨entries', hinv', hinv.sizes⟩
  | write =>
    exact ⟨entries, ⟨hinv.inv.count, hinv.inv.mallocs, hinv.inv.mallocsOnce, hinv.inv.cells,
      hinv.inv.cellsDiffer⟩, hinv.sizes⟩
  | scribble =>
    exact ⟨entries, ⟨hinv.inv.count, hinv.inv.mallocs, hinv.inv.mallocsOnce, hinv.inv.cells,
      hinv.inv.cellsDiffer⟩, hinv.sizes⟩

/-- A difference of counts that fits is not wrapped. -/
theorem i64_sub {a b n : ℕ} (heq : a = n + b) (hlt : a < 0x8000000000000000) :
    i64 (i64 a - i64 b) = n := by
  unfold i64
  omega

/-- The snapshot of the heaps is that of their pool. -/
theorem HeapSys.snapshot_eq {s : HeapSys}
    (hreg : RegistryInv s.books.registry s.books.metrics entries) :
    ∃ snapshot, s.snapshot = some snapshot ∧ (∀ k, snapshot.counter k = s.books.total entries k) ∧
      snapshot.allocated = snapshot.allocBytes - snapshot.freeBytes ∧
      ∀ i, snapshot.classLiveCount i =
        i64 (i64 (snapshot.classAllocCount i) - i64 (snapshot.classDeallocCount i)) := by
  obtain ⟨snapshot, hsnapshot, hsum, hallocated, hlive, -⟩ := PoolState.snapshot_eq hreg
  exact ⟨snapshot, hsnapshot, hsum, hallocated, hlive⟩

/-- With the books in order a snapshot is accurate. -/
theorem RunInv.accurate (hinv : RunInv r entries) : r.Accurate := by
  have hcount := hinv.inv.count
  obtain ⟨snapshot, hsnapshot, hsum, hallocated, hliveCount⟩ := HeapSys.snapshot_eq hcount.registry
  refine ⟨snapshot, hsnapshot, ?_, fun i _ => ?_⟩
  · have hbytes : snapshot.allocBytes = r.sys.heaps.books.total entries .allocBytes :=
      hsum .allocBytes
    have hfree : snapshot.freeBytes = r.sys.heaps.books.total entries .freeBytes := hsum .freeBytes
    have hlive := hcount.bytes
    omega
  · have halloc : snapshot.classAllocCount i = r.sys.heaps.books.total entries
        (.classAllocCount i) :=
      hsum (.classAllocCount i)
    have hdealloc : snapshot.classDeallocCount i = r.sys.heaps.books.total entries
        (.classDeallocCount i) :=
      hsum (.classDeallocCount i)
    have height := hcount.eight i
    have hlt := r.sys.heaps.books.total_lt entries .allocBytes
    rw [hliveCount]
    refine i64_sub (by rw [halloc, hdealloc]; exact hcount.counts i) ?_
    omega

/-- In every run whose steps are counted, every snapshot is accurate. -/
theorem snapshot_accurate_of_counted {headers : ℕ → SlabHeader} {next : ℕ → Option ℕ}
    {links : Links ℕ QueueHead} {labels : List GlobalLabel}
    (hrun : run globalStep (GlobalRun.new headers next links) labels = some r)
    (hmeets : Meets globalStep Counted (GlobalRun.new headers next links) labels) : r.Accurate := by
  have hinv : ∃ entries, RunInv r entries := by
    refine run_invariant_of_meets (I := fun r => ∃ entries, RunInv r entries) ?_
      ⟨[], globalInv_new headers next links, by simp [GlobalRun.new]⟩ hmeets hrun
    intro r label r' hr hcounted hstep
    obtain ⟨entries, hinv⟩ := hr
    exact hinv.step hcounted hstep
  obtain ⟨entries, hinv⟩ := hinv
  exact hinv.accurate

/-- The layout of 64 bytes. -/
def line : Layout := ⟨64, 8, ⟨3, rfl⟩, Nat.le_of_ble_eq_true rfl⟩

/-- No thread has called yet, and memory holds nothing. -/
def idleGlobal : GlobalRun :=
  .new (fun _ => .init 0 0) (fun _ => none) ⟨fun _ => none, fun _ => none, fun _ => none⟩

/-- Two threads allocate, the second frees what the first allocated, and the first ends. -/
def handOverRun : List GlobalLabel :=
  [.alloc 0 line (some 1) (some 0x1000000), .alloc 1 line (some 2) none,
    .dealloc 1 ⟨0x1000080, line⟩, .exit 0]

/-- One allocation is live after the hand-over, and the snapshot says so. -/
theorem snapshot_accurate_handOverRun :
    ∃ r, run globalStep idleGlobal handOverRun = some r ∧ r.live.length = 1 ∧
    r.sys.cell 0 = .destroyed ∧ r.Accurate := by
  have hcheck : (run globalStep idleGlobal handOverRun).map (fun r => decide (r.live.length = 1 ∧
      r.sys.cell 0 = .destroyed)) = some true := by decide +kernel
  obtain ⟨r, hrun, hr⟩ := Option.map_eq_some_iff.mp hcheck
  obtain ⟨hlive, hcell⟩ := of_decide_eq_true hr
  exact ⟨r, hrun, hlive, hcell, snapshot_accurate_of_counted hrun (by decide +kernel)⟩

/-- A thread that never allocated frees what another thread allocated. -/
def uncountedRun : List GlobalLabel :=
  [.alloc 0 line (some 1) (some 0x1000000), .dealloc 1 ⟨0x1000080, line⟩]

/-- Nothing is live any more, but the snapshot still reports the 64 bytes. -/
theorem snapshot_not_accurate_uncountedRun :
    ∃ r, run globalStep idleGlobal uncountedRun = some r ∧ r.live = [] ∧
    r.sys.heaps.snapshot.map MetricsSnapshot.allocated = some 64 ∧ ¬r.Accurate := by
  have hcheck : (run globalStep idleGlobal uncountedRun).map (fun r => decide (r.live = [] ∧
      r.sys.heaps.snapshot.map MetricsSnapshot.allocated =
        some 64)) = some true := by decide +kernel
  obtain ⟨r, hrun, hr⟩ := Option.map_eq_some_iff.mp hcheck
  obtain ⟨hlive, hsnapshot⟩ := of_decide_eq_true hr
  refine ⟨r, hrun, hlive, hsnapshot, ?_⟩
  rintro ⟨snapshot, heq, hbytes, -⟩
  rw [heq, Option.map_some, Option.some.injEq, hbytes, hlive] at hsnapshot
  simp [liveBytes] at hsnapshot

end ClMalloc
