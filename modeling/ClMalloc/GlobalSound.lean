import ClMalloc.GlobalAlloc
import ClMalloc.HeapLife
import ClMalloc.Lib.Transition

/-!
# Runs of the global allocator

The heaps stay ready over every run of the global allocator: a cell points to a heap that
`malloc` gave room for, no two threads share one, and the heaps, the slabs and the live
allocations agree. In particular the live allocations have different addresses.
-/

namespace ClMalloc

open Transition Intrusive Placement

variable {s s' : HeapSys} {live : List Allocation} {lists : SlabPlace → List ℕ}
  {roster handles : List ℕ} {h t ptr : ℕ} {layout : Layout} {reply malloc result : Option ℕ}
  {g g' : GlobalSys} {a : Allocation}

/-- Writing metrics moves no slab. -/
theorem Ready.setMetrics (hready : Ready s live lists roster handles) (m : PoolMetrics)
    (heaps : ℕ → HeapMetrics) :
    Ready (s.setMetrics m heaps) live lists roster handles := by
  have hinv := hready.inv
  refine ⟨?_, hready.hand⟩
  exact
    { hinv with
      quiet := hinv.quiet.setMetrics m
      inUse := hinv.inUse
      bins := hinv.bins
      abandoned := hinv.abandoned
      belongs := fun place h c howner p hp => (hinv.belongs place h c howner p hp).congr rfl rfl
      orphans := fun c p hp => (hinv.orphans c p hp).congr rfl le_rfl (hinv.orphans c p hp).noHeap
      ids := hinv.ids
      idsDiffer := hinv.idsDiffer
      slabs := hinv.slabs
      serves := fun a ha => (hinv.serves a ha).congr (fun _ hp _ => ⟨hp, rfl⟩) fun hlarge =>
        hlarge }

/-- Between operations the heaps are ready and the cells point to different heaps that exist. -/
structure GlobalReady (g : GlobalSys) (live : List Allocation) : Prop where
  ready : ∃ lists, Ready g.heaps live lists g.mallocs g.mallocs
  cells : ∀ t h, g.cell t = .ptr h → h ∈ g.mallocs
  cellsDiffer : ∀ t t' h, g.cell t = .ptr h → g.cell t' = .ptr h → t = t'

/-- Before the first call no cell points anywhere. -/
theorem globalReady_new (headers : ℕ → SlabHeader) (next : ℕ → Option ℕ)
    (links : Links ℕ QueueHead) :
    GlobalReady (GlobalRun.new headers next links).sys [] where
  ready := ⟨_, heapInv_new headers next links, rfl⟩
  cells := fun _ _ hcell => HeapCell.noConfusion hcell
  cellsDiffer := fun _ _ _ hcell => HeapCell.noConfusion hcell

/-- Live allocations have different addresses. -/
theorem GlobalReady.liveOnce (hready : GlobalReady g live) : (live.map Allocation.ptr).Nodup := by
  obtain ⟨lists, hheaps⟩ := hready.ready
  exact hheaps.inv.liveOnce

/-- A change of the heaps that leaves the cells and their room alone. -/
theorem GlobalReady.withHeaps (hready : GlobalReady g live) {live' : List Allocation}
    {heaps : HeapSys} (hheaps : ∃ lists, Ready heaps live' lists g.mallocs g.mallocs) :
    GlobalReady { g with heaps := heaps } live' :=
  ⟨hheaps, hready.cells, hready.cellsDiffer⟩

/-- `init_heap` sets the cell of the thread to the heap it made. -/
theorem GlobalSys.initHeap_cell (hinit : g.initHeap t malloc = .ok (g', some h)) :
    g'.cell = Function.update g.cell t (.ptr h) := by
  unfold GlobalSys.initHeap at hinit
  split at hinit
  · cases hinit
  · split at hinit <;> try contradiction
    split at hinit <;> try contradiction
    cases hinit
    rfl

/-- An allocation by a heap moves no cell. -/
theorem GlobalSys.heapAlloc_cell (halloc : g.heapAlloc h layout reply = .ok (g', result)) :
    g'.cell = g.cell := by
  unfold GlobalSys.heapAlloc at halloc
  split at halloc <;> cases halloc
  rfl

/-- An allocation gives the thread its first heap or moves no cell; a thread that was served has a
heap. -/
theorem GlobalSys.alloc_cell (halloc : g.alloc t layout malloc reply = .ok (g', result)) :
    (g'.cell = g.cell ∨ g.cell t = .null ∧ ∃ h, g'.cell = Function.update g.cell t (.ptr h)) ∧
      (layout.size ≠ 0 → result ≠ none → ∃ h, g'.cell t = .ptr h) := by
  unfold GlobalSys.alloc at halloc
  split at halloc
  case isTrue hsize =>
    cases halloc
    exact ⟨.inl rfl, fun hne => absurd hsize hne⟩
  case isFalse hsize =>
    split at halloc
    case h_1 =>
      cases halloc
      exact ⟨.inl rfl, fun _ hne => absurd rfl hne⟩
    case h_2 h hcell =>
      have hsame := GlobalSys.heapAlloc_cell halloc
      exact ⟨.inl hsame, fun _ _ => ⟨h, by rw [hsame, hcell]⟩⟩
    case h_3 hcell =>
      split at halloc <;> try contradiction
      case h_1 g₁ h hinit =>
        have hnew := (GlobalSys.heapAlloc_cell halloc).trans (GlobalSys.initHeap_cell hinit)
        exact ⟨.inr ⟨hcell, h, hnew⟩, fun _ _ => ⟨h, by simp [hnew]⟩⟩
      case h_2 g₁ hinit =>
        cases halloc
        refine ⟨.inl ?_, fun _ hne => absurd rfl hne⟩
        unfold GlobalSys.initHeap at hinit
        split at hinit
        · cases hinit
          rfl
        · split at hinit <;> try contradiction
          split at hinit <;> cases hinit

/-- A free moves no cell. -/
theorem GlobalSys.dealloc_cell (hdealloc : g.dealloc t ptr layout = .ok g') : g'.cell = g.cell := by
  unfold GlobalSys.dealloc at hdealloc
  split at hdealloc
  · cases hdealloc
    rfl
  · split at hdealloc
    · split at hdealloc <;> cases hdealloc
      rfl
    · cases hdealloc
      unfold GlobalSys.deallocDirect
      split <;> rfl

/-- The end of a thread takes its own heap only. -/
theorem GlobalSys.exit_cell (hexit : g.exit t = .ok g') :
    (∀ t' h, g'.cell t' = .ptr h → g.cell t' = .ptr h) ∧ ∀ t' ≠ t, g'.cell t' = g.cell t' := by
  unfold GlobalSys.exit at hexit
  split at hexit
  · unfold GlobalSys.heapDestructor at hexit
    split at hexit <;> try contradiction
    split at hexit <;> cases hexit
    exact ⟨fun t' h hcell => (cell_of_destroyed hcell).2, fun t' ht => Function.update_of_ne ht _ _⟩
  · cases hexit
    exact ⟨fun _ _ hcell => hcell, fun _ _ => rfl⟩

/-- `init_heap` gives the thread a heap of its own. -/
theorem GlobalReady.initHeap (hready : GlobalReady g live)
    (hinit : g.initHeap t malloc = .ok (g', result)) :
    GlobalReady g' live := by
  unfold GlobalSys.initHeap at hinit
  split at hinit
  · cases hinit
    exact hready
  · rename_i h
    split at hinit <;> try contradiction
    rename_i hnew
    unfold HeapSys.registerHeap at hinit
    split at hinit <;> try contradiction
    case h_1 heaps hregister =>
      split at hregister <;> try contradiction
      cases hregister
      cases hinit
      obtain ⟨lists, hheaps⟩ := hready.ready
      refine ⟨⟨lists, (hheaps.newHeap hnew).setMetrics _ _⟩, fun t' h' ht' => ?_,
        fun t₁ t₂ h' => ?_⟩
      · rcases cell_of_assigned ht' with rfl | hold
        · exact List.mem_cons_self
        · exact List.mem_cons_of_mem _ (hready.cells t' h' hold)
      · exact cells_assign (fun t' hptr => hnew (hready.cells t' h hptr)) hready.cellsDiffer

/-- `Heap::alloc` on the heap of a thread. -/
theorem GlobalReady.heapAlloc (hready : GlobalReady g live) (hcell : g.cell t = .ptr h)
    (hsize : 1 ≤ layout.size) (halloc : g.heapAlloc h layout reply = .ok (g', result)) :
    GlobalReady g' (withResult result layout live) := by
  unfold GlobalSys.heapAlloc at halloc
  split at halloc <;> try contradiction
  case h_1 heaps result' hserved =>
    cases halloc
    obtain ⟨lists, hheaps⟩ := hready.ready
    have hserves : Served (g.heaps.alloc h layout reply) reply layout live g.mallocs g.mallocs :=
      hheaps.alloc (hready.cells t h hcell) hsize
    rcases hserves with ⟨s', result', lists', heq, hready'⟩ | ⟨heq, -⟩
    · rw [hserved] at heq
      cases heq
      exact hready.withHeaps ⟨lists', hready'⟩
    · rw [hserved] at heq
      cases heq

/-- `GlobalAlloc::alloc` of at least one byte. -/
theorem GlobalReady.alloc (hready : GlobalReady g live) (hsize : layout.size ≠ 0)
    (halloc : g.alloc t layout malloc reply = .ok (g', result)) :
    GlobalReady g' (withResult result layout live) := by
  have hpos : 1 ≤ layout.size := Nat.one_le_iff_ne_zero.mpr hsize
  unfold GlobalSys.alloc at halloc
  rw [if_neg hsize] at halloc
  split at halloc
  case h_1 =>
    cases halloc
    exact hready
  case h_2 h hcell => exact hready.heapAlloc hcell hpos halloc
  case h_3 =>
    split at halloc <;> try contradiction
    case h_1 g₁ h hinit =>
      have hcell : g₁.cell t = .ptr h := by simp [GlobalSys.initHeap_cell hinit]
      exact (hready.initHeap hinit).heapAlloc hcell hpos halloc
    case h_2 g₁ hinit =>
      cases halloc
      exact hready.initHeap hinit

/-- `GlobalAlloc::dealloc` of a live allocation. -/
theorem GlobalReady.dealloc (hready : GlobalReady g live) (ha : a ∈ live)
    (hdealloc : g.dealloc t a.ptr a.layout = .ok g') : GlobalReady g' (live.erase a) := by
  obtain ⟨lists, hheaps⟩ := hready.ready
  have hsize : a.layout.size ≠ 0 := Nat.one_le_iff_ne_zero.mp (hheaps.inv.serves a ha).1
  unfold GlobalSys.dealloc at hdealloc
  rw [if_neg hsize] at hdealloc
  split at hdealloc
  case h_1 h hcell =>
    obtain ⟨s', lists', heq, hready'⟩ := hheaps.dealloc (hready.cells t h hcell) ha
    rw [heq] at hdealloc
    cases hdealloc
    exact hready.withHeaps ⟨lists', hready'⟩
  case h_2 =>
    cases hdealloc
    unfold GlobalSys.deallocDirect
    cases hclass : classIndex a.layout with
    | some c => exact hready.withHeaps ⟨lists, hheaps.inv.deallocRemote ha hclass, hheaps.hand⟩
    | none => exact hready.withHeaps ⟨lists, hheaps.inv.deallocLarge ha hclass, hheaps.hand⟩

/-- The end of a thread. -/
theorem GlobalReady.exit (hready : GlobalReady g live) (hexit : g.exit t = .ok g') :
    GlobalReady g' live := by
  unfold GlobalSys.exit at hexit
  split at hexit
  case h_1 h hcell =>
    unfold GlobalSys.heapDestructor HeapSys.deregisterHeap at hexit
    split at hexit <;> try contradiction
    case h_2 heaps hderegister =>
      split at hderegister <;> try contradiction
      cases hderegister
      obtain ⟨lists, hheaps⟩ := hready.ready
      obtain ⟨s', lists', hdrop, hready', -⟩ := (hheaps.setMetrics _ _).dropHeap h
      rw [hdrop] at hexit
      cases hexit
      refine ⟨⟨lists', hready'⟩, fun t' h' ht' => ?_, fun t₁ t₂ h' ht₁ ht₂ => ?_⟩
      · obtain ⟨ht, hptr⟩ := cell_of_destroyed ht'
        refine (List.mem_erase_of_ne ?_).mpr (hready.cells t' h' hptr)
        rintro rfl
        exact ht (hready.cellsDiffer t' t h' hptr hcell)
      · exact hready.cellsDiffer t₁ t₂ h' (cell_of_destroyed ht₁).2 (cell_of_destroyed ht₂).2
  case h_2 =>
    cases hexit
    exact hready

/-- Every operation keeps the heaps ready. -/
theorem globalStep_ready {r r' : GlobalRun} {label : GlobalLabel}
    (hready : GlobalReady r.sys r.live) (hstep : globalStep r label = some r') :
    GlobalReady r'.sys r'.live := by
  cases globalStep_cases hstep with
  | allocEmpty => exact hready
  | alloc hsize halloc => exact hready.alloc hsize halloc
  | allocNull hsize halloc => exact hready.alloc hsize halloc
  | deallocEmpty => exact hready
  | dealloc hlive hdealloc => exact hready.dealloc hlive hdealloc
  | exit hexit => exact hready.exit hexit
  | write hlive hclass =>
    obtain ⟨lists, hheaps⟩ := hready.ready
    obtain ⟨c, hclass⟩ := Option.isSome_iff_exists.mp hclass
    exact hready.withHeaps ⟨lists, hheaps.inv.write hlive hclass _, hheaps.hand⟩
  | scribble hunused hkept =>
    obtain ⟨lists, hheaps⟩ := hready.ready
    refine hready.withHeaps ⟨lists, hheaps.scribble ?_ _ _ _ _⟩
    rintro (hin | ⟨c, hin⟩)
    · exact hunused hin
    · exact hkept c (hheaps.inv.orphans c _ hin).range hin

end ClMalloc
