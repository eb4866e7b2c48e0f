import ClMalloc.GlobalThreads

/-!
# What the global allocator guarantees its threads

In every interleaving of atomic actions live allocations are apart, a heap has one thread from
its first allocation to the end of its destructor, every operation can start and every action
succeeds, and when all threads have ended no page is in use: what is left are the slabs of the
allocations that outlived their threads.
-/

namespace ClMalloc

open Threads Transition Intrusive Placement

variable {headers : ℕ → SlabHeader} {next : ℕ → Option ℕ} {links : Links ℕ QueueHead}
  {labels : List GlobalThreadLabel} {g g' : GlobalThreads} {t h : ℕ} {a : Allocation}

/-- No thread has allocated, and memory holds nothing. -/
def emptyGlobal : GlobalThreads :=
  .new (fun _ => .init 0 0) (fun _ => none) ⟨fun _ => none, fun _ => none, fun _ => none⟩

/-- Thread 1 fills a slab and ends. Thread 2, which never allocates, frees both allocations: one
before the destructor starts, the other between its look at the slab and its push to the abandoned
list. -/
def exitRun : List GlobalThreadLabel :=
  [.alloc 1 halfSlab (some 100)] ++ List.replicate 7 (.act 1 none) ++
    [.act 1 (some 0x1000000), .ret 1, .alloc 1 halfSlab none, .act 1 none, .act 1 none, .ret 1,
      .dealloc 2 ⟨0x1005000, halfSlab⟩, .exit 1] ++
    List.replicate 228 (.act 1 none) ++ [.dealloc 2 ⟨0x100a000, halfSlab⟩] ++
      List.replicate 20 (.act 1 none) ++
    [.ret 1]

/-- In every interleaving of the atomic actions of threads that start, allocate, free and end, live
allocations are aligned, located and apart; and a heap is in use exactly as long as one thread's
cell points to it and `malloc`'s room for it is not given back. -/
theorem global_interleaved_sound
    (hrun : run globalThreadStep (GlobalThreads.new headers next links) labels = some g) :
    (∀ a ∈ g.heaps.live, a.layout.align ∣ a.ptr ∧ g.heaps.sys.Located a) ∧
      g.heaps.live.Pairwise Allocation.Apart ∧ (∀ h, g.heaps.InUse h ↔ ∃! t, g.cell t = .ptr h) ∧
      (∀ h, h ∈ g.mallocs ↔ g.heaps.InUse h) ∧ g.mallocs.Nodup := by
  have hsound := globalThreadRun_sound hrun
  obtain ⟨haligned, hapart⟩ := hsound.heaps.allocations
  refine ⟨haligned, hapart, fun h => ?_, fun h => ?_, hsound.mallocsOnce⟩
  · rw [hsound.owned]
    constructor
    · rintro ⟨t, ht⟩
      exact ⟨t, ht, fun t' ht' => hsound.differ t' t h ht' ht⟩
    · rintro ⟨t, ht, -⟩
      exact ⟨t, ht⟩
  · rw [hsound.mallocs, hsound.owned]

/-- Thread 1 is in its destructor, thread 2 has freed one of its allocations. -/
theorem global_interleaved_sound_exitRun :
    ∃ g, run globalThreadStep emptyGlobal (exitRun.take 40) = some g ∧
    g.heaps.live.length = 1 ∧ g.heaps.handles = [] ∧
    (∀ a ∈ g.heaps.live, a.layout.align ∣ a.ptr ∧ g.heaps.sys.Located a) ∧
      g.heaps.live.Pairwise Allocation.Apart ∧ (∀ h, g.heaps.InUse h ↔ ∃! t, g.cell t = .ptr h) ∧
      (∀ h, h ∈ g.mallocs ↔ g.heaps.InUse h) ∧ g.mallocs.Nodup := by
  have hcheck : (run globalThreadStep emptyGlobal (exitRun.take 40)).map (fun g => decide
      (g.heaps.live.length = 1 ∧ g.heaps.handles = [])) = some true := by decide +kernel
  obtain ⟨g, hrun, hg⟩ := Option.map_eq_some_iff.mp hcheck
  obtain ⟨hlive, hhandles⟩ := of_decide_eq_true hg
  exact ⟨g, hrun, hlive, hhandles, global_interleaved_sound hrun⟩

/-- The thread is in none of its operations. -/
def GlobalThreads.Between (g : GlobalThreads) (t : ℕ) : Prop :=
  ∀ h, g.cell t = .ptr h → g.heaps.thread h = none

/-- A heap between two operations of its thread is alive. -/
theorem GlobalThreads.Sound.alive (hsound : g.Sound) (hcell : g.cell t = .ptr h)
    (hbetween : g.Between t) :
    h ∈ g.heaps.handles :=
  ((hsound.owned h).mpr ⟨t, hcell⟩).resolve_right fun hbusy => hbusy (hbetween h hcell)

/-- A call on a live heap whose thread does nothing else can start. -/
theorem GlobalThreads.heapStep_call {call : HeapCall} {started : HeapRun}
    (hheap : h ∈ g.heaps.handles) (hidle : g.heaps.thread h = none)
    (hstart : call.start h g.heaps.toHeapRun = some started) :
    g.heapStep (.call h call) =
      some { g with
        heaps := ⟨started, Function.update g.heaps.thread h (some (call.prog h))⟩ } := by
  simp [GlobalThreads.heapStep, threadStep, hheap, hidle, hstart]

/-- What the thread of a heap does alone, the program's thread does. -/
theorem GlobalThreads.run_acts {n : ℕ} {heaps : HeapThreads} (hcell : g.cell t = .ptr h)
    (hrun : run threadStep g.heaps (List.replicate n (.act h none)) = some heaps) :
    run globalThreadStep g (List.replicate n (.act t none)) = some { g with heaps := heaps } := by
  induction n generalizing g with
  | zero =>
    cases hrun
    rfl
  | succ n ih =>
    obtain ⟨heaps₁, hstep, hrest⟩ := run_cons_eq_some.mp hrun
    have hact : globalThreadStep g (.act t none) = some { g with heaps := heaps₁ } := by
      simp only [globalThreadStep, hcell, GlobalThreads.heapStep, hstep, Option.map_some]
    exact run_cons_eq_some.mpr ⟨_, hact, ih (g := { g with heaps := heaps₁ }) hcell hrest⟩

/-- A thread whose operation is over returns from it. -/
theorem GlobalThreads.ret_done {done : HeapDone} (hcell : g.cell t = .ptr h)
    (hdone : g.heaps.thread h = some (.ret done)) :
    ∃ g', globalThreadStep g (.ret t) = some g' ∧ g'.Between t := by
  have hret : threadStep g.heaps (.ret h) =
      some ⟨done.finish g.heaps.toHeapRun, Function.update g.heaps.thread h none⟩ := by
    simp only [threadStep, hdone]
  have hbetween (h' : ℕ) (hptr : g.cell t = .ptr h') :
      Function.update g.heaps.thread h none h' = none := by
    rw [hcell] at hptr
    cases hptr
    exact Function.update_self _ _ _
  simp only [globalThreadStep, hcell, hdone]
  cases done with
  | dropped =>
    refine ⟨_, by simp only [GlobalThreads.heapStep, hret, Option.map_some]; rfl, fun h' hptr => ?_⟩
    simp [GlobalThreads.destroy] at hptr
  | allocated layout result =>
    refine ⟨_, by simp only [GlobalThreads.heapStep, hret, Option.map_some]; rfl, ?_⟩
    exact hbetween
  | freed =>
    refine ⟨_, by simp only [GlobalThreads.heapStep, hret, Option.map_some]; rfl, ?_⟩
    exact hbetween

/-- Every operation can start at any time, and every operation can end: a thread that is in none of
its operations can free any live allocation, whether it has a heap, had one or never had; it can
start to allocate, if `malloc` gives fresh room; and it can end. A thread in an operation can
complete it by its own atomic actions, whatever the other threads are in the middle of; waiting for
the lock of the pool is not among them. -/
theorem global_never_stuck
    (hrun : run globalThreadStep (GlobalThreads.new headers next links) labels = some g) (t : ℕ) :
    (g.Between t → (∀ a ∈ g.heaps.live, ∃ g', globalThreadStep g (.dealloc t a) = some g' ∧
        g'.heaps.live = g.heaps.live.erase a) ∧
      (∀ layout malloc, (∀ h, malloc = some h → h ∉ g.mallocs) →
        ∃ g', globalThreadStep g (.alloc t layout malloc) = some g') ∧
      ∃ g', globalThreadStep g (.exit t) = some g') ∧
    (¬g.Between t → ∃ n g', run globalThreadStep g (List.replicate n (.act t none) ++ [.ret t]) =
      some g' ∧ g'.Between t) := by
  have hsound := globalThreadRun_sound hrun
  refine ⟨fun hbetween => ⟨fun a ha => ?_, fun layout malloc hmalloc => ?_, ?_⟩, fun hbusy => ?_⟩
  · have hsize := (hsound.heaps.serves ha).1
    have hpos : a.layout.size ≠ 0 := by omega
    simp only [globalThreadStep, if_neg hpos]
    cases hcell : g.cell t with
    | ptr h =>
      have hstart : HeapCall.start h g.heaps.toHeapRun (.dealloc a) =
          some { g.heaps.toHeapRun with live := g.heaps.live.erase a } := by
            simp [HeapCall.start, ha]
      exact ⟨_, GlobalThreads.heapStep_call (hsound.alive hcell hbetween) (hbetween h hcell) hstart,
        rfl⟩
    | null => exact ⟨_, by simp only [GlobalThreads.heapStep, threadStep, if_pos ha]; rfl, rfl⟩
    | destroyed => exact ⟨_, by simp only [GlobalThreads.heapStep, threadStep, if_pos ha]; rfl, rfl⟩
  · by_cases hsize : layout.size = 0
    · exact ⟨g, by simp [globalThreadStep, hsize]⟩
    have hstart (h : ℕ) (r : HeapRun) : HeapCall.start h r (.alloc layout) = some r := by
      simp only [HeapCall.start]
      rw [if_pos (by omega)]
    simp only [globalThreadStep, if_neg hsize]
    cases hcell : g.cell t with
    | ptr h =>
      exact ⟨_, GlobalThreads.heapStep_call (hsound.alive hcell hbetween)
        (hbetween h hcell) (hstart h _)⟩
    | destroyed => exact ⟨g, rfl⟩
    | null =>
      cases malloc with
      | none => exact ⟨g, rfl⟩
      | some h =>
        have hfresh := hmalloc h rfl
        have hunused : ¬g.heaps.InUse h :=
          fun hin => hfresh ((hsound.mallocs h).mpr ((hsound.owned h).mp hin))
        simp only [HeapThreads.InUse, not_or, not_not] at hunused
        simp only [GlobalThreads.initHeap, if_neg hfresh, threadStep, hunused.1, hunused.2,
          not_false_eq_true, Option.isNone_none, and_self, if_true, Option.map_some,
          Option.bind_some]
        exact ⟨_, GlobalThreads.heapStep_call List.mem_cons_self hunused.2 (hstart h _)⟩
  · simp only [globalThreadStep]
    cases hcell : g.cell t with
    | ptr h =>
      exact ⟨_, GlobalThreads.heapStep_call (hsound.alive hcell hbetween) (hbetween h hcell) rfl⟩
    | null => exact ⟨g, rfl⟩
    | destroyed => exact ⟨g, rfl⟩
  · obtain ⟨h, hcell, hprog⟩ : ∃ h, g.cell t = .ptr h ∧ g.heaps.thread h ≠ none := by
      simpa [GlobalThreads.Between] using hbusy
    obtain ⟨p, hp⟩ := Option.ne_none_iff_exists'.mp hprog
    obtain ⟨n, heaps, done, hacts, hthread⟩ := hsound.heaps.finish hp
    have hdone : heaps.thread h = some (.ret done) := by
      rw [hthread]
      exact Function.update_self _ _ _
    obtain ⟨g', hret, hend⟩ := GlobalThreads.ret_done (g := { g with
      heaps := heaps }) (t := t) hcell hdone
    refine ⟨n, g', ?_, hend⟩
    rw [run_append, GlobalThreads.run_acts hcell hacts]
    exact run_cons_eq_some.mpr ⟨g', hret, rfl⟩

/-- Thread 1 is in its destructor. -/
theorem global_never_stuck_exitRun :
    ∃ g, run globalThreadStep emptyGlobal (exitRun.take 40) = some g ∧
    (g.heaps.thread 100).isSome = true ∧
    (g.Between 1 → (∀ a ∈ g.heaps.live, ∃ g', globalThreadStep g (.dealloc 1 a) = some g' ∧
        g'.heaps.live = g.heaps.live.erase a) ∧
      (∀ layout malloc, (∀ h, malloc = some h → h ∉ g.mallocs) →
        ∃ g', globalThreadStep g (.alloc 1 layout malloc) = some g') ∧
      ∃ g', globalThreadStep g (.exit 1) = some g') ∧
    (¬g.Between 1 → ∃ n g', run globalThreadStep g (List.replicate n (.act 1 none) ++ [.ret 1]) =
      some g' ∧ g'.Between 1) := by
  have hcheck : (run globalThreadStep emptyGlobal (exitRun.take 40)).map (fun g => decide
      ((g.heaps.thread 100).isSome = true)) = some true := by decide +kernel
  obtain ⟨g, hrun, hg⟩ := Option.map_eq_some_iff.mp hcheck
  exact ⟨g, hrun, of_decide_eq_true hg, global_never_stuck hrun 1⟩

/-- When the heaps of all threads are gone, no page is in use, and of each page that is still held
every slot is available, freed remotely, or serves a live allocation. -/
theorem global_teardown
    (hrun : run globalThreadStep (GlobalThreads.new headers next links) labels = some g)
    (hended : g.mallocs = []) :
    g.heaps.sys.pool.inUse = [] ∧ (∀ p, g.heaps.sys.pool.Held p →
      g.heaps.live.countP (fun a => a.ServedFrom p) + g.heaps.sys.freeTotal p =
        (g.heaps.sys.headers p).slotCount) ∧
    ∀ c, ∀ p ∈ g.heaps.sys.pool.abandoned c, (g.heaps.sys.headers p).sizeClassIndex = c := by
  have hsound := globalThreadRun_sound hrun
  have hunused (h : ℕ) : h ∉ g.heaps.handles ∧ g.heaps.thread h = none := by
    have hnot : ¬g.heaps.InUse h := by
      rw [hsound.owned, ← hsound.mallocs, hended]
      exact List.not_mem_nil
    simpa [HeapThreads.InUse] using hnot
  obtain ⟨⟨lists, hready⟩, hbalanced⟩ := hsound.heaps.ready fun h => (hunused h).2
  have hinv := hready.inv
  refine ⟨List.eq_nil_iff_forall_not_mem.mpr fun p hp => ?_, hbalanced,
    fun c p hp => (hinv.orphans c p hp).classIdx⟩
  obtain ⟨place, hplace⟩ := (hinv.inUse p).mp hp
  cases place with
  | bin h c => exact (hunused h).1 (hinv.belongs _ h c rfl p hplace).heap
  | queue head =>
    exact (hunused head.heap).1 (hinv.belongs
    (.queue head) head.heap head.classIdx rfl p hplace).heap
  | hand => simp [hready.hand] at hplace

/-- All that is left is one abandoned slab, wholly free. -/
theorem global_teardown_exitRun :
    ∃ g, run globalThreadStep emptyGlobal exitRun = some g ∧ g.heaps.live = [] ∧
    g.heaps.sys.pool.abandoned 45 = [0x1000000] ∧
    g.heaps.sys.pool.inUse = [] ∧ (∀ p, g.heaps.sys.pool.Held p →
      g.heaps.live.countP (fun a => a.ServedFrom p) + g.heaps.sys.freeTotal p =
        (g.heaps.sys.headers p).slotCount) ∧
    ∀ c, ∀ p ∈ g.heaps.sys.pool.abandoned c, (g.heaps.sys.headers p).sizeClassIndex = c := by
  have hcheck : (run globalThreadStep emptyGlobal exitRun).map (fun g => decide
      (g.heaps.live.length = 0 ∧ g.mallocs = [] ∧
        g.heaps.sys.pool.abandoned 45 = [0x1000000])) = some true := by
    decide +kernel
  obtain ⟨g, hrun, hg⟩ := Option.map_eq_some_iff.mp hcheck
  obtain ⟨hlive, hended, habandoned⟩ := of_decide_eq_true hg
  exact ⟨g, hrun, List.length_eq_zero_iff.mp hlive, habandoned, global_teardown hrun hended⟩

end ClMalloc
