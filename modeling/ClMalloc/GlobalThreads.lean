import ClMalloc.HeapQuiescent

/-!
# The global allocator under any number of threads

Each thread has a `HEAP` cell. Its first allocation makes a heap where `malloc` says, a later
one runs `Heap::alloc` on it, and a free by a thread without a heap goes straight to the slab
or the pool. When the thread ends the destructor drops the heap and marks the cell. The
operations of different threads interleave action by action, where each use of the pool and of
the slab cache is one action. This is the build without the feature `metrics`: with it the
heaps are registered with the pool, which asserts that there are no more than `MAX_HEAPS`.
-/

namespace ClMalloc

open Threads Transition Intrusive Placement

/-- The heaps with their threads, the cells of the program's threads, and the heaps `malloc` gave
room for. -/
structure GlobalThreads where
  heaps : HeapThreads
  cell : ℕ → HeapCell
  mallocs : List ℕ

/-- What can happen next: a thread starts an operation of the global allocator, or its end; it acts
or returns; the program writes to its memory, or the pool to a free page. -/
inductive GlobalThreadLabel
  | alloc (t : ℕ) (layout : Layout) (malloc : Option ℕ)
  | dealloc (t : ℕ) (a : Allocation)
  | exit (t : ℕ)
  | act (t : ℕ) (reply : Option ℕ)
  | ret (t : ℕ)
  | write (a : Allocation) (value : Option ℕ)
  | scribble (page : ℕ) (header : SlabHeader) (words : ℕ → Option ℕ) (nextLink : Option ℕ)
    (prevLink : Option (Cell ℕ QueueHead))

/-- A step of the heaps. -/
def GlobalThreads.heapStep (g : GlobalThreads) (label : ThreadLabel) : Option GlobalThreads :=
  (threadStep g.heaps label).map fun heaps => { g with heaps := heaps }

/-- `init_heap` without the feature `metrics`: the heap is made where `malloc` says and its cell
set. The key of the destructor is there. -/
def GlobalThreads.initHeap (g : GlobalThreads) (t h : ℕ) : Option GlobalThreads :=
  if h ∈ g.mallocs then none
  else (threadStep g.heaps (.newHeap h)).map fun heaps =>
    ⟨heaps, Function.update g.cell t (.ptr h), h :: g.mallocs⟩

/-- The end of `heap_destructor`: the room of the heap is given back and the cell marked. -/
def GlobalThreads.destroy (g : GlobalThreads) (t h : ℕ) : GlobalThreads :=
  { g with cell := Function.update g.cell t .destroyed, mallocs := g.mallocs.erase h }

/-- One step of the threads. -/
def globalThreadStep (g : GlobalThreads) : GlobalThreadLabel → Option GlobalThreads
  | .alloc t layout malloc =>
    if layout.size = 0 then some g
    else
      match g.cell t with
      | .destroyed => some g
      | .ptr h => g.heapStep (.call h (.alloc layout))
      | .null =>
        match malloc with
        | none => some g
        | some h => (g.initHeap t h).bind fun g => g.heapStep (.call h (.alloc layout))
  | .dealloc t a =>
    if a.layout.size = 0 then some g
    else
      match g.cell t with
      | .ptr h => g.heapStep (.call h (.dealloc a))
      | _ => g.heapStep (.deallocDirect a)
  | .exit t =>
    match g.cell t with
    | .ptr h => g.heapStep (.call h .drop)
    | _ => some g
  | .act t reply =>
    match g.cell t with
    | .ptr h => g.heapStep (.act h reply)
    | _ => none
  | .ret t =>
    match g.cell t with
    | .ptr h =>
      match g.heaps.thread h with
      | some (.ret .dropped) => (g.heapStep (.ret h)).map fun g => g.destroy t h
      | _ => g.heapStep (.ret h)
    | _ => none
  | .write a value => g.heapStep (.write a value)
  | .scribble page header words nextLink prevLink =>
    g.heapStep (.scribble page header words nextLink prevLink)

/-- No thread has allocated yet. -/
def GlobalThreads.new (headers : ℕ → SlabHeader) (next : ℕ → Option ℕ) (links : Links ℕ QueueHead) :
    GlobalThreads :=
  ⟨.new headers next links, fun _ => .null, []⟩

/-- What a step does: nothing; a step of the heaps that starts or continues no heap's life; the
first allocation of a thread; or the end of a destructor. -/
inductive GlobalThreadStepped (g : GlobalThreads) : GlobalThreadLabel → GlobalThreads → Prop
  | nothing {label : GlobalThreadLabel} : GlobalThreadStepped g label g
  | heaps {label : GlobalThreadLabel} {step : ThreadLabel} {heaps : HeapThreads}
    (hstep : threadStep g.heaps step = some heaps)
    (hcall : ∀ h, step.called = some h → ∃ t, g.cell t = .ptr h) (hmade : ∀ h, step ≠ .newHeap h)
    (hended : ∀ h, step = .ret h → g.heaps.thread h ≠ some (.ret .dropped)) :
    GlobalThreadStepped g label { g with heaps := heaps }
  | first {t h : ℕ} {layout : Layout} {made heaps : HeapThreads} (hcell : g.cell t = .null)
      (hmalloc : h ∉ g.mallocs)
    (hnew : threadStep g.heaps (.newHeap h) = some made)
    (hcall : threadStep made (.call h (.alloc layout)) = some heaps) :
    GlobalThreadStepped g (.alloc t layout (some h)) ⟨heaps,
      Function.update g.cell t (.ptr h), h :: g.mallocs⟩
  | destroyed {t h : ℕ} {heaps : HeapThreads} (hcell : g.cell t = .ptr h)
    (hdropped : g.heaps.thread h = some (.ret .dropped))
    (hret : threadStep g.heaps (.ret h) = some heaps) :
    GlobalThreadStepped g (.ret t) (GlobalThreads.destroy { g with heaps := heaps } t h)

variable {g g' : GlobalThreads} {label : GlobalThreadLabel} {t t' h : ℕ} {a : Allocation}

/-- A step of the heaps on behalf of a thread. -/
theorem GlobalThreads.heapStep_cases {step : ThreadLabel} (hstep : g.heapStep step = some g')
    (hcall : ∀ h, step.called = some h → ∃ t, g.cell t = .ptr h) (hmade : ∀ h, step ≠ .newHeap h)
    (hended : ∀ h, step = .ret h → g.heaps.thread h ≠ some (.ret .dropped)) :
    GlobalThreadStepped g label g' := by
  obtain ⟨heaps, hheaps, rfl⟩ := Option.map_eq_some_iff.mp hstep
  exact .heaps hheaps hcall hmade hended

/-- Every step does one of these. -/
theorem globalThreadStep_cases (hstep : globalThreadStep g label = some g') :
    GlobalThreadStepped g label g' := by
  cases label with
  | alloc t layout malloc =>
    simp only [globalThreadStep] at hstep
    split at hstep
    case isTrue =>
      cases hstep
      exact .nothing
    case isFalse =>
      cases hcell : g.cell t with
      | destroyed =>
        rw [hcell] at hstep
        cases hstep
        exact .nothing
      | ptr h =>
        rw [hcell] at hstep
        refine GlobalThreads.heapStep_cases hstep (fun h' hh' => ⟨t, ?_⟩) (by simp) (by simp)
        rw [hcell, Option.some.inj hh']
      | null =>
        rw [hcell] at hstep
        cases malloc with
        | none =>
          cases hstep
          exact .nothing
        | some h =>
          obtain ⟨made, hmade, hrest⟩ := Option.bind_eq_some_iff.mp hstep
          unfold GlobalThreads.initHeap at hmade
          split at hmade
          case isTrue => cases hmade
          case isFalse hmalloc =>
            obtain ⟨heaps, hnew, rfl⟩ := Option.map_eq_some_iff.mp hmade
            obtain ⟨heaps', hcall, rfl⟩ := Option.map_eq_some_iff.mp hrest
            exact .first hcell hmalloc hnew hcall
  | dealloc t a =>
    simp only [globalThreadStep] at hstep
    split at hstep
    case isTrue =>
      cases hstep
      exact .nothing
    case isFalse =>
      split at hstep
      case h_1 h hcell =>
        refine GlobalThreads.heapStep_cases hstep (fun h' hh' => ⟨t, ?_⟩) (by simp) (by simp)
        rw [hcell, Option.some.inj hh']
      case h_2 =>
        exact GlobalThreads.heapStep_cases hstep (by simp [ThreadLabel.called]) (by simp) (by simp)
  | exit t =>
    simp only [globalThreadStep] at hstep
    split at hstep
    case h_1 h hcell =>
      refine GlobalThreads.heapStep_cases hstep (fun h' hh' => ⟨t, ?_⟩) (by simp) (by simp)
      rw [hcell, Option.some.inj hh']
    case h_2 =>
      cases hstep
      exact .nothing
  | act t reply =>
    simp only [globalThreadStep] at hstep
    split at hstep
    case h_1 =>
      exact GlobalThreads.heapStep_cases hstep (by simp [ThreadLabel.called]) (by simp) (by simp)
    case h_2 => cases hstep
  | ret t =>
    simp only [globalThreadStep] at hstep
    split at hstep
    case h_1 h hcell =>
      split at hstep
      case h_1 hdropped =>
        obtain ⟨mid, hmid, rfl⟩ := Option.map_eq_some_iff.mp hstep
        obtain ⟨heaps, hret, rfl⟩ := Option.map_eq_some_iff.mp hmid
        exact .destroyed hcell hdropped hret
      case h_2 hother =>
        refine GlobalThreads.heapStep_cases hstep (by simp [ThreadLabel.called])
          (by simp) fun h' hh' => ?_
        cases hh'
        exact hother
    case h_2 => cases hstep
  | write a value =>
    exact GlobalThreads.heapStep_cases hstep (by simp [ThreadLabel.called]) (by simp) (by simp)
  | scribble page header words nextLink prevLink =>
    exact GlobalThreads.heapStep_cases hstep (by simp [ThreadLabel.called]) (by simp) (by simp)

/-- A heap is in use from when it is made until its destructor ends. -/
def HeapThreads.InUse (r : HeapThreads) (h : ℕ) : Prop := h ∈ r.handles ∨ r.thread h ≠ none

/-- Views fit the heaps, every heap in use has exactly one thread, and `malloc` gave room for those
heaps. -/
structure GlobalThreads.Sound (g : GlobalThreads) : Prop where
  heaps : g.heaps.Sound
  owned : ∀ h, g.heaps.InUse h ↔ ∃ t, g.cell t = .ptr h
  differ : ∀ t t' h, g.cell t = .ptr h → g.cell t' = .ptr h → t = t'
  mallocs : ∀ h, h ∈ g.mallocs ↔ ∃ t, g.cell t = .ptr h
  mallocsOnce : g.mallocs.Nodup

/-- A step that makes and ends no heap leaves the heaps in use. -/
theorem inUse_of_step {r r' : HeapThreads} {step : ThreadLabel} (hsound : r.Sound)
    (hstep : threadStep r step = some r') (hcall : ∀ h, step.called = some h → r.InUse h)
    (hmade : ∀ h, step ≠ .newHeap h)
    (hended : ∀ h, step = .ret h → r.thread h ≠ some (.ret .dropped)) (h : ℕ) :
    r'.InUse h ↔ r.InUse h := by
  cases threadStep_cases hstep with
  | newHeap => exact absurd rfl (hmade _)
  | call hheap hidle hstart =>
    rename_i h' call started
    by_cases hh : h = h'
    · subst hh
      exact iff_of_true (.inr (by simp)) (.inl hheap)
    · have hhandles : h ∈ started.handles ↔ h ∈ r.handles := by
        cases call with
        | alloc layout =>
          simp only [HeapCall.start] at hstart
          split at hstart <;> cases hstart
          rfl
        | dealloc a =>
          simp only [HeapCall.start] at hstart
          split at hstart <;> cases hstart
          rfl
        | drop =>
          cases hstart
          exact List.mem_erase_of_ne hh
      simp only [HeapThreads.InUse, hhandles, Function.update_of_ne hh]
  | act hprog hact =>
    rename_i h' _ _ _ _ _ _
    by_cases hh : h = h'
    · subst hh
      exact iff_of_true (.inr (by simp)) (.inr (by simp [hprog]))
    · simp only [HeapThreads.InUse, Function.update_of_ne hh]
  | ret hprog =>
    rename_i h' done
    have hhandles : (done.finish r.toHeapRun).handles = r.handles := by
      cases done with
      | allocated layout result => cases result <;> rfl
      | freed => rfl
      | dropped => rfl
    by_cases hh : h = h'
    · subst hh
      obtain ⟨views, hfits⟩ := hsound
      obtain ⟨lists, roster, allocs, hagrees⟩ := hfits.holds
      have hends : done.Ends (views h) := hfits.safe h _ hprog
      have halive : h ∈ r.handles := by
        refine (hagrees.handles h).mpr ?_
        cases done with
        | allocated layout result => exact hends.alive
        | freed => exact hends.alive
        | dropped => exact absurd hprog (hended h rfl)
      exact iff_of_true (.inl (by rw [hhandles]; exact halive)) (.inl halive)
    · simp only [HeapThreads.InUse, hhandles, Function.update_of_ne hh]
  | deallocDirect => exact Iff.rfl
  | write => exact Iff.rfl
  | scribble => exact Iff.rfl

/-- Every step keeps the global allocator sound. -/
theorem globalThreadStep_sound (hsound : g.Sound) (hstep : globalThreadStep g label = some g') :
    g'.Sound := by
  cases globalThreadStep_cases hstep with
  | nothing => exact hsound
  | heaps hheaps hcall hmade hended =>
    have hinUse := inUse_of_step hsound.heaps hheaps
      (fun h hh => (hsound.owned h).mpr (hcall h hh)) hmade hended
    exact ⟨threadStep_sound hsound.heaps hheaps,
      fun h => (hinUse h).trans (hsound.owned h), hsound.differ, hsound.mallocs, hsound.mallocsOnce⟩
  | first hcell hmalloc hnew hcall =>
    rename_i t h layout made heaps
    have hfree : ∀ t', g.cell t' ≠ .ptr h :=
      fun t' hptr => hmalloc ((hsound.mallocs h).mpr ⟨t', hptr⟩)
    have hcells (h' : ℕ) :
        (∃ t', Function.update g.cell t (.ptr h) t' = .ptr h') ↔ h' = h ∨
          ∃ t', g.cell t' = .ptr h' := by
      constructor
      · rintro ⟨t', hptr⟩
        exact (cell_of_assigned hptr).imp id fun hold => ⟨t', hold⟩
      · rintro (rfl | ⟨t', hptr⟩)
        · exact ⟨t, Function.update_self _ _ _⟩
        · refine ⟨t', ?_⟩
          rw [Function.update_of_ne]
          · exact hptr
          · rintro rfl
            rw [hcell] at hptr
            cases hptr
    have hmade : made = { g.heaps with
        sys := g.heaps.sys.newHeap h, handles := h :: g.heaps.handles } := by
      cases threadStep_cases hnew with
      | newHeap => rfl
    have hsoundMade := threadStep_sound hsound.heaps hnew
    have hinUse := inUse_of_step hsoundMade hcall
      (fun h' hh' => by cases hh'; rw [hmade]; exact .inl List.mem_cons_self) (by simp) (by simp)
    refine ⟨threadStep_sound hsoundMade hcall, fun h' => ?_,
      fun t₁ t₂ h' => cells_assign hfree hsound.differ,
      fun h' => ?_, List.nodup_cons.mpr ⟨hmalloc, hsound.mallocsOnce⟩⟩
    · rw [hinUse, hcells, ← hsound.owned, hmade]
      simp only [HeapThreads.InUse, List.mem_cons, or_assoc]
    · rw [List.mem_cons, hsound.mallocs, hcells]
  | destroyed hcell hdropped hret =>
    rename_i t h heaps
    have hcells (h' : ℕ) :
        (∃ t', Function.update g.cell t .destroyed t' = .ptr h') ↔ h' ≠ h ∧
          ∃ t', g.cell t' = .ptr h' := by
      constructor
      · rintro ⟨t', hptr⟩
        obtain ⟨hne, hold⟩ := cell_of_destroyed hptr
        refine ⟨?_, t', hold⟩
        rintro rfl
        exact hne (hsound.differ t' t h' hold hcell)
      · rintro ⟨hne, t', hptr⟩
        refine ⟨t', ?_⟩
        rw [Function.update_of_ne]
        · exact hptr
        · rintro rfl
          rw [hcell] at hptr
          cases hptr
          exact hne rfl
    have hdead : h ∉ g.heaps.handles := by
      obtain ⟨views, hfits⟩ := hsound.heaps
      obtain ⟨lists, roster, allocs, hagrees⟩ := hfits.holds
      have hends : HeapDone.dropped.Ends (views h) := hfits.safe h _ hdropped
      rw [hagrees.handles, hends.1.ending]
      simp
    have hheaps : heaps = ⟨g.heaps.toHeapRun, Function.update g.heaps.thread h none⟩ := by
      cases threadStep_cases hret with
      | ret hprog =>
        rw [hdropped] at hprog
        cases hprog
        rfl
    refine ⟨threadStep_sound hsound.heaps hret, fun h' => ?_,
      fun t₁ t₂ h' ht₁ ht₂ => ?_, fun h' => ?_, hsound.mallocsOnce.erase h⟩
    · refine Iff.trans ?_ (hcells h').symm
      rw [← hsound.owned]
      change heaps.InUse h' ↔ _
      rw [hheaps]
      by_cases hh : h' = h
      · subst hh
        simp [HeapThreads.InUse, hdead]
      · simp [HeapThreads.InUse, hh]
    · exact hsound.differ t₁ t₂ h' (cell_of_destroyed ht₁).2 (cell_of_destroyed ht₂).2
    · change h' ∈ g.mallocs.erase h ↔ _
      rw [hsound.mallocsOnce.mem_erase_iff, hsound.mallocs]
      exact (hcells h').symm

/-- Before the first allocation the global allocator is sound. -/
theorem globalThreads_new_sound (headers : ℕ → SlabHeader) (next : ℕ → Option ℕ)
    (links : Links ℕ QueueHead) : (GlobalThreads.new headers next links).Sound where
  heaps := threads_new_sound headers next links
  owned := fun h => by simp [GlobalThreads.new, HeapThreads.InUse, HeapThreads.new, HeapRun.new]
  differ := by simp [GlobalThreads.new]
  mallocs := by simp [GlobalThreads.new]
  mallocsOnce := List.nodup_nil

/-- Every run leaves the global allocator sound. -/
theorem globalThreadRun_sound {headers : ℕ → SlabHeader} {next : ℕ → Option ℕ}
    {links : Links ℕ QueueHead} {labels : List GlobalThreadLabel}
    (hrun : run globalThreadStep (GlobalThreads.new headers next links) labels = some g) :
    g.Sound :=
  run_invariant (fun _ _ _ => globalThreadStep_sound)
    (globalThreads_new_sound headers next links) hrun

end ClMalloc
