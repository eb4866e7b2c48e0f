import ClMalloc.PoolBooks
import ClMalloc.Heap

/-!
# What the operations of a heap count

The books of the heaps are the registry and the counters of every heap. All helpers keep
them; `alloc` counts once for the heap it serves if and only if it returns a pointer, on
each of its paths, and `dealloc` counts once before it chooses its path.
-/

namespace ClMalloc

open Intrusive

/-- The registry and the counters of the heaps. -/
structure Books where
  registry : HeapRegistry
  metrics : ℕ → HeapMetrics

/-- The books of the heaps. -/
def HeapSys.books (s : HeapSys) : Books := ⟨s.pool.core.pool.registry, fun h => (s.heap h).metrics⟩

variable {s s' : HeapSys} {h c slab ptr : ℕ} {result reply : Option ℕ} {α β : Type}

/-- A computation that ended ran its first part and then the rest. -/
theorem exists_ok_of_bind {x : Except HeapFault α} {f : α → Except HeapFault β} {b : β}
    (hbind : (x >>= f) = .ok b) :
    ∃ a, x = .ok a ∧ f a = .ok b := by
  cases x with
  | error fault => cases hbind
  | ok a => exact ⟨a, rfl, hbind⟩

/-- Setting a bin counts nothing. -/
@[simp] theorem HeapSys.setBin_books (s : HeapSys) (h c : ℕ) (slab : Option ℕ) :
    (s.setBin h c slab).books = s.books := by
  unfold HeapSys.books
  congr 1
  funext h'
  by_cases hh : h' = h
  · subst hh
    simp [HeapSys.setBin, HeapSys.setHeap]
  · simp [HeapSys.setBin, HeapSys.setHeap, hh]

/-- Counting for a heap changes its counters only. -/
theorem HeapSys.count_books (s : HeapSys) (h : ℕ) (f : HeapMetrics → HeapMetrics) :
    (s.count h f).books = ⟨s.books.registry,
      Function.update s.books.metrics h (f (s.books.metrics h))⟩ := by
  unfold HeapSys.books
  congr 1
  funext h'
  by_cases hh : h' = h
  · subst hh
    simp [HeapSys.count, HeapSys.setHeap]
  · simp [HeapSys.count, HeapSys.setHeap, hh]

/-- Counting depends on the books only. -/
theorem HeapSys.count_books_congr (hbooks : s'.books = s.books) (h : ℕ)
    (f : HeapMetrics → HeapMetrics) : (s'.count h f).books = (s.count h f).books := by
  rw [HeapSys.count_books, HeapSys.count_books, hbooks]

/-- `Slab::alloc` counts nothing. -/
theorem HeapSys.slabAlloc_books (halloc : s.slabAlloc slab = (s', result)) :
    s'.books = s.books := by
  unfold HeapSys.slabAlloc at halloc
  split at halloc
  all_goals
    cases halloc
    rfl

/-- `drain_remote` counts nothing. -/
theorem HeapSys.drainRemote_books (hdrain : s.drainRemote slab = .ok s') : s'.books = s.books := by
  unfold HeapSys.drainRemote at hdrain
  split at hdrain <;> try contradiction
  cases hdrain
  rfl

/-- `slab_list_pop` counts nothing. -/
theorem HeapSys.slabListPop_books {head : QueueHead} (hpop : s.slabListPop head = some (slab, s')) :
    s'.books = s.books := by
  unfold HeapSys.slabListPop at hpop
  split at hpop <;> try contradiction
  cases hpop
  rfl

/-- `slab_list_remove` counts nothing. -/
theorem HeapSys.slabListRemove_books (hremove : s.slabListRemove slab = .ok s') :
    s'.books = s.books := by
  unfold HeapSys.slabListRemove at hremove
  split at hremove <;> try contradiction
  cases hremove
  rfl

/-- `cache_slab` counts nothing for the heaps. -/
theorem HeapSys.cacheSlab_books (hcache : s.cacheSlab slab = .ok s') : s'.books = s.books := by
  unfold HeapSys.cacheSlab at hcache
  split at hcache <;> try contradiction
  case h_1 pool hpool =>
    cases hcache
    unfold HeapSys.books
    rw [PagePool.cacheSlabToEnd_registry hpool]

/-- `try_partial` counts nothing. -/
theorem HeapSys.tryPartial_books {found : Bool} (htry : s.tryPartial h c = (s', found)) :
    s'.books = s.books := by
  unfold HeapSys.tryPartial at htry
  split at htry
  case h_1 slab s₁ hpop =>
    cases htry
    rw [HeapSys.setBin_books]
    exact HeapSys.slabListPop_books hpop
  case h_2 =>
    cases htry
    rfl

/-- Promoting a slab counts nothing. -/
@[simp] theorem HeapSys.promote_books (s : HeapSys) (h c slab : ℕ) :
    (s.promote h c slab).books = s.books := by
  unfold HeapSys.promote
  split
  · exact HeapSys.setBin_books _ _ _ _
  · rfl

/-- The loop of `scan_full_list` counts nothing. -/
theorem HeapSys.scanLoop_books {fuel : ℕ} {cursor : Option ℕ}
    (hscan : HeapSys.scanLoop h c fuel s cursor = .ok s') : s'.books = s.books := by
  induction fuel generalizing s cursor with
  | zero =>
    cases cursor <;> cases hscan
    rfl
  | succ fuel ih =>
    cases cursor with
    | none =>
      cases hscan
      rfl
    | some slab =>
      unfold HeapSys.scanLoop at hscan
      obtain ⟨s₁, hdrain, hscan⟩ := exists_ok_of_bind hscan
      have hfirst : s₁.books = s.books := by
        unfold HeapSys.drainPending at hdrain
        split at hdrain
        · exact HeapSys.drainRemote_books hdrain
        · cases hdrain
          rfl
      rw [← hfirst]
      split at hscan
      · obtain ⟨s₂, hremove, hscan⟩ := exists_ok_of_bind hscan
        obtain ⟨s₃, hcache, hscan⟩ := exists_ok_of_bind hscan
        rw [ih hscan, HeapSys.cacheSlab_books hcache, HeapSys.slabListRemove_books hremove]
      · split at hscan
        · obtain ⟨s₂, hremove, hscan⟩ := exists_ok_of_bind hscan
          rw [ih hscan, HeapSys.promote_books, HeapSys.slabListRemove_books hremove]
        · exact ih hscan

/-- `retire_active` counts nothing. -/
@[simp] theorem HeapSys.retireActive_books (s : HeapSys) (h c : ℕ) :
    (s.retireActive h c).books = s.books := by
  unfold HeapSys.retireActive
  split
  · exact (s.setBin_books h c none).trans rfl
  · rfl

/-- Queueing an adopted slab counts nothing. -/
@[simp] theorem HeapSys.enqueue_books (s : HeapSys) (h c slab : ℕ) :
    (s.enqueue h c slab).books = s.books := by
  unfold HeapSys.enqueue
  split <;> rfl

/-- Taking over an adopted slab counts for the pool only. -/
theorem HeapSys.takeOver_books (hover : s.takeOver h c slab = .ok s') : s'.books = s.books := by
  unfold HeapSys.takeOver at hover
  obtain ⟨s₁, hdrain, hover⟩ := exists_ok_of_bind hover
  cases hover
  exact (HeapSys.drainRemote_books hdrain).trans rfl

/-- Using an adopted slab counts nothing. -/
theorem HeapSys.useAdopted_books {result' : Option ℕ}
    (huse : s.useAdopted h c slab result = (s', result')) :
    s'.books = s.books := by
  unfold HeapSys.useAdopted at huse
  split at huse
  · cases huse
    exact HeapSys.enqueue_books _ _ _ _
  · split at huse
    case h_1 s₁ ptr halloc =>
      cases huse
      rw [HeapSys.setBin_books]
      exact HeapSys.slabAlloc_books halloc
    case h_2 s₁ halloc =>
      cases huse
      rw [HeapSys.enqueue_books]
      exact HeapSys.slabAlloc_books halloc

/-- The loop of `try_adopt` counts nothing for the heaps. -/
theorem HeapSys.adoptLoop_books {fuel : ℕ} {cursor result' : Option ℕ}
    (hadopt : HeapSys.adoptLoop h c fuel s cursor result = .ok (s', result')) :
    s'.books = s.books := by
  induction fuel generalizing s cursor result with
  | zero =>
    cases cursor <;> cases hadopt
    rfl
  | succ fuel ih =>
    cases cursor with
    | none =>
      cases hadopt
      rfl
    | some slab =>
      unfold HeapSys.adoptLoop at hadopt
      obtain ⟨s₁, hover, hadopt⟩ := exists_ok_of_bind hadopt
      rw [← HeapSys.takeOver_books hover]
      split at hadopt
      · obtain ⟨s₂, hcache, hadopt⟩ := exists_ok_of_bind hadopt
        rw [ih hadopt, HeapSys.cacheSlab_books hcache]
      · rcases huse : s₁.useAdopted h c slab result with ⟨s₂, result₂⟩
        rw [huse] at hadopt
        rw [ih hadopt, HeapSys.useAdopted_books huse]

/-- The books after a request: counted if it was served. -/
def HeapSys.served (s : HeapSys) (h : ℕ) (f : HeapMetrics → HeapMetrics) (result : Option ℕ) :
    HeapSys :=
  match result with
  | some _ => s.count h f
  | none => s

/-- What a request counts depends on the books only. -/
theorem HeapSys.served_books_congr (hbooks : s'.books = s.books) (h : ℕ)
    (f : HeapMetrics → HeapMetrics) (result : Option ℕ) :
    (s'.served h f result).books = (s.served h f result).books := by
  cases result with
  | none => exact hbooks
  | some ptr => exact HeapSys.count_books_congr hbooks h f

/-- `request_slab` counts once if it returns a pointer. -/
theorem HeapSys.requestSlab_books (hrequest : s.requestSlab h c reply = .ok (s', result)) :
    s'.books = (s.served h (·.onAlloc c (classSize c)) result).books := by
  unfold HeapSys.requestSlab at hrequest
  obtain ⟨⟨s₁, found⟩, hadopt, hrequest⟩ := exists_ok_of_bind hrequest
  have hfirst : s₁.books = s.books := (HeapSys.adoptLoop_books hadopt).trans rfl
  rw [← HeapSys.served_books_congr hfirst]
  cases found with
  | some ptr =>
    cases hrequest
    rfl
  | none =>
    simp only at hrequest
    split at hrequest <;> try contradiction
    case h_2 pool htake =>
      cases hrequest
      unfold HeapSys.books
      rw [PagePool.takeSlab_registry htake]
      rfl
    case h_3 pool page htake =>
      have hpool : (HeapSys.slabInit { s₁ with
          pool := pool } page c (s₁.heap h).id).books = s₁.books := by
        unfold HeapSys.books
        rw [← PagePool.takeSlab_registry htake]
        rfl
      split at hrequest
      case h_1 s₂ ptr halloc =>
        cases hrequest
        refine HeapSys.count_books_congr ?_ _ _
        rw [HeapSys.setBin_books, HeapSys.slabAlloc_books halloc, hpool]
      case h_2 s₂ halloc =>
        cases hrequest
        rw [HeapSys.setBin_books, HeapSys.slabAlloc_books halloc, hpool]
        rfl

/-- Behind an empty bin a request counts once if it returns a pointer, given that the recursive call
does. -/
theorem HeapSys.refill_books {again : HeapSys → Except HeapFault (HeapSys × Option ℕ)}
    (hagain : ∀ s₁, again s₁ = .ok (s', result) →
      s'.books = (s₁.served h (·.onAlloc c (classSize c)) result).books)
    (hrefill : HeapSys.refill h c reply again s = .ok (s', result)) :
    s'.books = (s.served h (·.onAlloc c (classSize c)) result).books := by
  unfold HeapSys.refill at hrefill
  split at hrefill
  case h_1 s₁ htry =>
    rw [hagain s₁ hrefill, HeapSys.served_books_congr (HeapSys.tryPartial_books htry)]
  case h_2 s₁ htry =>
    obtain ⟨s₂, hscan, hrefill⟩ := exists_ok_of_bind hrefill
    have hsecond : s₂.books = s.books :=
      (HeapSys.scanLoop_books hscan).trans (HeapSys.tryPartial_books htry)
    rw [← HeapSys.served_books_congr hsecond]
    split at hrefill
    · exact hagain s₂ hrefill
    · split at hrefill
      case h_1 s₃ htry₃ =>
        rw [hagain s₃ hrefill, HeapSys.served_books_congr (HeapSys.tryPartial_books htry₃)]
      case h_2 s₃ htry₃ =>
        rw [HeapSys.requestSlab_books hrefill,
          HeapSys.served_books_congr (HeapSys.tryPartial_books htry₃)]

/-- `alloc` for a class counts once if it returns a pointer. -/
theorem HeapSys.allocClass_books {fuel : ℕ}
    (halloc : HeapSys.allocClass h c reply fuel s = .ok (s', result)) :
    s'.books = (s.served h (·.onAlloc c (classSize c)) result).books := by
  induction fuel generalizing s with
  | zero => cases halloc
  | succ fuel ih =>
    unfold HeapSys.allocClass at halloc
    split at halloc
    · exact HeapSys.refill_books (fun s₁ => ih) halloc
    · split at halloc
      case h_1 s₁ ptr hslot =>
        cases halloc
        exact HeapSys.count_books_congr (HeapSys.slabAlloc_books hslot) _ _
      case h_2 s₁ hslot =>
        obtain ⟨s₂, hdrain, halloc⟩ := exists_ok_of_bind halloc
        have hsecond : s₂.books = s.books :=
          (HeapSys.drainRemote_books hdrain).trans (HeapSys.slabAlloc_books hslot)
        rw [← HeapSys.served_books_congr hsecond]
        split at halloc
        case h_1 s₃ ptr hslot₃ =>
          cases halloc
          exact HeapSys.count_books_congr (HeapSys.slabAlloc_books hslot₃) _ _
        case h_2 s₃ hslot₃ =>
          rw [HeapSys.refill_books (fun s₁ => ih) halloc]
          refine HeapSys.served_books_congr ?_ _ _ _
          rw [HeapSys.retireActive_books, HeapSys.slabAlloc_books hslot₃]

/-- What `alloc` counts for a layout. -/
def onServed (layout : Layout) (m : HeapMetrics) : HeapMetrics :=
  match classIndex layout with
  | some c => m.onAlloc c (classSize c)
  | none => m.onLargeAlloc layout.size

/-- `Heap::alloc` counts once, for its heap, if it returns a pointer. -/
theorem HeapSys.alloc_books {layout : Layout} (halloc : s.alloc h layout reply = .ok (s', result)) :
    s'.books = (s.served h (onServed layout) result).books := by
  unfold HeapSys.alloc at halloc
  cases hclass : classIndex layout with
  | some c =>
    rw [hclass] at halloc
    have hcounted : onServed layout = (·.onAlloc c (classSize c)) := by
      funext m
      simp [onServed, hclass]
    rw [hcounted]
    exact HeapSys.allocClass_books halloc
  | none =>
    rw [hclass] at halloc
    have hcounted : onServed layout = (·.onLargeAlloc layout.size) := by
      funext m
      simp [onServed, hclass]
    rw [hcounted]
    simp only at halloc
    split at halloc <;> try contradiction
    case h_2 pool hlarge =>
      cases halloc
      unfold HeapSys.books
      rw [PagePool.allocLargeToEnd_registry hlarge]
      rfl
    case h_3 pool ptr hlarge =>
      cases halloc
      refine HeapSys.count_books_congr ?_ _ _
      unfold HeapSys.books
      rw [PagePool.allocLargeToEnd_registry hlarge]

/-- What `dealloc` counts for a layout, with the free counted as remote or not. -/
def onFreed (layout : Layout) (remote : Bool) (m : HeapMetrics) : HeapMetrics :=
  match classIndex layout with
  | some c =>
    if remote then (m.onDealloc c (classSize c)).onRemoteFree 1 else m.onDealloc c (classSize c)
  | none => m.onLargeDealloc layout.size

/-- Counting twice is counting once with both. -/
theorem HeapSys.count_count_books (s : HeapSys) (h : ℕ) (f g : HeapMetrics → HeapMetrics) :
    ((s.count h f).count h g).books = (s.count h (fun m => g (f m))).books := by
  simp [HeapSys.count_books]

/-- A free into a slab of the heap that is not active counts nothing more. -/
theorem HeapSys.deallocOwn_books (hdealloc : s.deallocOwn h c slab ptr = .ok s') :
    s'.books = s.books := by
  unfold HeapSys.deallocOwn at hdealloc
  simp only at hdealloc
  split at hdealloc
  · unfold HeapSys.reclaimSlab at hdealloc
    obtain ⟨s₁, hremove, hcache⟩ := exists_ok_of_bind hdealloc
    exact (HeapSys.cacheSlab_books hcache).trans ((HeapSys.slabListRemove_books hremove).trans rfl)
  · split at hdealloc
    · obtain ⟨s₁, hremove, hpromote⟩ := exists_ok_of_bind hdealloc
      cases hpromote
      rw [HeapSys.promote_books]
      exact (HeapSys.slabListRemove_books hremove).trans rfl
    · cases hdealloc
      rfl

/-- `Heap::dealloc` counts one free for its heap. -/
theorem HeapSys.dealloc_books {layout : Layout} (hdealloc : s.dealloc h ptr layout = .ok s') :
    ∃ remote, s'.books = (s.count h (onFreed layout remote)).books := by
  unfold HeapSys.dealloc at hdealloc
  cases hclass : classIndex layout with
  | none =>
    rw [hclass] at hdealloc
    cases hdealloc
    have hcounted : onFreed layout false = (·.onLargeDealloc layout.size) := by
      funext m
      simp [onFreed, hclass]
    exact ⟨false, by rw [hcounted]; rfl⟩
  | some c =>
    rw [hclass] at hdealloc
    simp only at hdealloc
    have hlocal : onFreed layout false = (·.onDealloc c (classSize c)) := by
      funext m
      simp [onFreed, hclass]
    have hremote : onFreed layout true = fun m => (m.onDealloc c (classSize c)).onRemoteFree 1 := by
      funext m
      simp [onFreed, hclass]
    split at hdealloc
    · cases hdealloc
      exact ⟨false, by rw [hlocal]; rfl⟩
    · split at hdealloc
      · exact ⟨false, by rw [hlocal]; exact HeapSys.deallocOwn_books hdealloc⟩
      · cases hdealloc
        refine ⟨true, ?_⟩
        rw [hremote]
        exact s.count_count_books h (·.onDealloc c (classSize c)) (·.onRemoteFree 1)

/-- Giving up a slab counts for the pool only. -/
theorem HeapSys.surrender_books (hsurrender : s.surrender slab = .ok s') : s'.books = s.books := by
  unfold HeapSys.surrender at hsurrender
  obtain ⟨s₁, hdrain, hrest⟩ := exists_ok_of_bind hsurrender
  rw [← HeapSys.drainRemote_books hdrain]
  split at hrest
  · exact HeapSys.cacheSlab_books hrest
  · cases hrest
    rfl

/-- `retire_slab` counts nothing for the heaps. -/
theorem HeapSys.retireSlab_books (hretire : s.retireSlab h c = .ok s') : s'.books = s.books := by
  unfold HeapSys.retireSlab at hretire
  split at hretire
  · rw [HeapSys.surrender_books hretire, HeapSys.setBin_books]
  · cases hretire
    rfl

/-- The loop of `drop` over a queue counts nothing for the heaps. -/
theorem HeapSys.dropQueue_books {head : QueueHead} {fuel : ℕ}
    (hdrop : HeapSys.dropQueue head fuel s = .ok s') :
    s'.books = s.books := by
  induction fuel generalizing s with
  | zero =>
    unfold HeapSys.dropQueue at hdrop
    split at hdrop
    · cases hdrop
      rfl
    · cases hdrop
  | succ fuel ih =>
    unfold HeapSys.dropQueue at hdrop
    split at hdrop
    · cases hdrop
      rfl
    · rename_i slab s₁ hpop
      obtain ⟨s₂, hsurrender, hrest⟩ := exists_ok_of_bind hdrop
      rw [ih hrest, HeapSys.surrender_books hsurrender, HeapSys.slabListPop_books hpop]

/-- A round of `drop` counts nothing for the heaps. -/
theorem HeapSys.dropClass_books (hdrop : s.dropClass h c = .ok s') : s'.books = s.books := by
  unfold HeapSys.dropClass at hdrop
  obtain ⟨s₁, hretire, hdrop⟩ := exists_ok_of_bind hdrop
  obtain ⟨s₂, hfull, hpart⟩ := exists_ok_of_bind hdrop
  rw [HeapSys.dropQueue_books hpart, HeapSys.dropQueue_books hfull,
    HeapSys.retireSlab_books hretire]

/-- `drop` counts nothing for the heaps. -/
theorem HeapSys.dropHeap_books (hdrop : s.dropHeap h = .ok s') : s'.books = s.books := by
  unfold HeapSys.dropHeap at hdrop
  generalize List.range numClasses = classes at hdrop
  induction classes generalizing s with
  | nil =>
    cases hdrop
    rfl
  | cons c rest ih =>
    rw [List.foldlM_cons] at hdrop
    obtain ⟨s₁, hround, hrest⟩ := exists_ok_of_bind hdrop
    rw [ih hrest, HeapSys.dropClass_books hround]

end ClMalloc
