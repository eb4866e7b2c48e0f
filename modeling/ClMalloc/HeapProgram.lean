import ClMalloc.HeapSystem
import ClMalloc.Lib.Threads

/-!
# The operations of a heap as programs

Other threads can act in the middle of a heap's operation. Here the operations of a heap are
programs, and other threads act between their actions. An action of its own is a look at the
`heap_id` or the remote stack of a slab, a push to a remote stack or its drain, a push to an
abandoned list or the swap that takes it, and each use of the pool; what a thread does to
memory that only it uses goes with the action before it, or is one of its own.

Each use of the pool is atomic here: `cache_slab`, `uncache_slab`, `alloc_slab`, `alloc_large`
and `dealloc_large` with their lock sections and the calls of the page allocator between them,
and a page taken is made a slab in the action that takes it. So the pool's lock, and a link of
the slab cache that goes stale between the load and the exchange of `uncache_slab`, are not
part of these interleavings; the modules on the pool and on the slab cache take them apart.

Run without interruption the programs are the whole operations.
-/

namespace ClMalloc

open Threads Intrusive

/-- Programs on the heaps; the input of a step is the page allocator's answer should it be asked. -/
abbrev HeapProg := Prog (Option ℕ) HeapSys HeapFault

/-- `slab.alloc()` on the active slab, counted if it hands out a slot. -/
def HeapSys.allocActive (s : HeapSys) (h c slab : ℕ) : HeapSys × Option ℕ :=
  match s.slabAlloc slab with
  | (s, some ptr) => (s.count h (·.onAlloc c (classSize c)), some ptr)
  | (s, none) => (s, none)

/-- Drain the remote stack of a slab if it was seen to have entries. -/
def HeapSys.drainSeen (s : HeapSys) (slab : ℕ) (pending : Bool) : Except HeapFault HeapSys :=
  if pending then s.drainRemote slab else .ok s

/-- What `scan_full_list` does with a slab after it looked at the slab's remote stack, up to
`cache_slab`: true if the slab is to be cached. -/
def HeapSys.scanSlab (s : HeapSys) (h c slab : ℕ) (pending : Bool) :
    Except HeapFault (HeapSys × Bool) := do
  let s ← s.drainSeen slab pending
  if (s.headers slab).isFullyFree then
    let s ← s.slabListRemove slab
    .ok (s, true)
  else if 0 < (s.headers slab).freeCount then
    let s ← s.slabListRemove slab
    .ok (s.promote h c slab, false)
  else .ok (s, false)

/-- The loop of `scan_full_list`, in which `cache_slab` is one action. -/
def HeapProg.scanLoop (h c : ℕ) : ℕ → Option ℕ → HeapProg Unit
  | _, none => pure ()
  | 0, some _ => fail .outOfFuel
  | fuel + 1, some slab => do
    let current ← look (·.links.next slab)
    let pending ← look fun s => (s.headers slab).hasPendingRemote
    let free ← atomically (·.scanSlab h c slab pending)
    if free then attempt (·.cacheSlab slab)
    scanLoop h c fuel current

/-- `scan_full_list`. -/
def HeapProg.scanFullList (h c : ℕ) : HeapProg Unit := do
  let (fuel, current) ← look fun s => (s.pool.inUse.length, s.links.head ⟨h, .full, c⟩)
  HeapProg.scanLoop h c fuel current

/-- The loop of `try_adopt`, in which `cache_slab` is one action. -/
def HeapProg.adoptLoop (h c : ℕ) : ℕ → Option ℕ → Option ℕ → HeapProg (Option ℕ)
  | _, none, result => pure result
  | 0, some _, _ => fail .outOfFuel
  | fuel + 1, some slab, result => do
    let next ← look (·.links.next slab)
    change (·.claim h slab)
    attempt (·.drainRemote slab)
    change fun s => { s with pool := s.pool.incAdoptCount c }
    let free ← look fun s => (s.headers slab).isFullyFree
    if free then
      attempt (·.cacheSlab slab)
      adoptLoop h c fuel next result
    else
      let result ← atomically fun s => .ok (s.useAdopted h c slab result)
      adoptLoop h c fuel next result

/-- `try_adopt`. -/
def HeapProg.tryAdopt (h c : ℕ) : HeapProg (Option ℕ) := do
  let chain ← atomically fun s => .ok ({ s with pool := s.pool.adoptAll 0 c }, s.pool.abandoned c)
  HeapProg.adoptLoop h c chain.length chain.head? none

/-- `Slab::init` on a page, `slab.alloc()`, and the page becomes the active slab. -/
def HeapSys.openSlab (s : HeapSys) (h c page : ℕ) : HeapSys × Option ℕ :=
  match (s.slabInit page c (s.heap h).id).slabAlloc page with
  | (s, some ptr) => ((s.setBin h c (some page)).count h (·.onAlloc c (classSize c)), some ptr)
  | (s, none) => (s.setBin h c (some page), none)

/-- `uncache_slab`, and the use of the page if there is one, in one action; the outer `none` says
there was none. -/
def HeapSys.openCached (s : HeapSys) (h c : ℕ) : HeapSys × Option (Option ℕ) :=
  match s.pool.slabCache with
  | page :: _ =>
    let (s, ptr) := HeapSys.openSlab { s with pool := s.pool.uncacheSlab 0 } h c page
    (s, some ptr)
  | [] => (s, none)

/-- `alloc_slab` to its end, and the use of the page if there is one, in one action. -/
def HeapSys.openFresh (h c : ℕ) (reply : Option ℕ) (s : HeapSys) :
    Except HeapFault (HeapSys × Option ℕ) :=
  match s.pool.core.allocSlabToEnd 0 reply with
  | none => .error .badReply
  | some (core, none) => .ok ({ s with pool := { s.pool with core := core } }, none)
  | some (core, some page) =>
    .ok (HeapSys.openSlab { s with pool := { s.pool with core := core } } h c page)

/-- `request_slab`: the swap of the abandoned list, the steps of the adoption, `uncache_slab` and
`alloc_slab` are the actions. -/
def HeapProg.requestSlab (h c : ℕ) : HeapProg (Option ℕ) := do
  match ← HeapProg.tryAdopt h c with
  | some ptr =>
    change (·.count h (·.onAlloc c (classSize c)))
    pure (some ptr)
  | none =>
    match ← atomically fun s => .ok (s.openCached h c) with
    | some result => pure result
    | none => asking (HeapSys.openFresh h c)

/-- The part of `Heap::alloc` behind an empty bin; `again` is its recursive call. -/
def HeapProg.refill (h c : ℕ) (again : HeapProg (Option ℕ)) : HeapProg (Option ℕ) := do
  if ← atomically fun s => .ok (s.tryPartial h c) then again
  else
    HeapProg.scanFullList h c
    let active ← look fun s => (s.heap h).bins c
    if active ≠ none then again
    else if ← atomically fun s => .ok (s.tryPartial h c) then again
    else HeapProg.requestSlab h c

/-- `Heap::alloc` for a size class; the recursive calls take fuel. -/
def HeapProg.allocClass (h c : ℕ) : ℕ → HeapProg (Option ℕ)
  | 0 => fail .outOfFuel
  | fuel + 1 => do
    match ← look fun s => (s.heap h).bins c with
    | none => HeapProg.refill h c (allocClass h c fuel)
    | some slab =>
      match ← atomically fun s => .ok (s.allocActive h c slab) with
      | some ptr => pure (some ptr)
      | none =>
        attempt (·.drainRemote slab)
        match ← atomically fun s => .ok (s.allocActive h c slab) with
        | some ptr => pure (some ptr)
        | none =>
          change (·.retireActive h c)
          HeapProg.refill h c (allocClass h c fuel)

/-- `alloc_large`, counted if it hands out a region. -/
def HeapSys.openLarge (h : ℕ) (layout : Layout) (reply : Option ℕ) (s : HeapSys) :
    Except HeapFault (HeapSys × Option ℕ) :=
  match s.pool.allocLargeToEnd layout.size layout.align reply with
  | none => .error .badReply
  | some (pool, none) => .ok ({ s with pool := pool }, none)
  | some (pool, some ptr) =>
    .ok (HeapSys.count { s with pool := pool } h (·.onLargeAlloc layout.size), some ptr)

/-- `Heap::alloc`. -/
def HeapProg.alloc (h : ℕ) (layout : Layout) : HeapProg (Option ℕ) :=
  match classIndex layout with
  | none => asking (HeapSys.openLarge h layout)
  | some c => HeapProg.allocClass h c 2

/-- A free into a slab of the heap that is not the active one, up to `cache_slab`: true if the slab
is to be cached. -/
def HeapSys.freeOwn (s : HeapSys) (h c slab ptr : ℕ) : Except HeapFault (HeapSys × Bool) :=
  let s := s.deallocLocal slab ptr
  if (s.headers slab).isFullyFree then do
    let s ← s.slabListRemove slab
    .ok (s, true)
  else if (s.headers slab).freeCount = 1 then do
    let s ← s.slabListRemove slab
    .ok (s.promote h c slab, false)
  else .ok (s, false)

/-- `Heap::dealloc`. -/
def HeapProg.dealloc (h ptr : ℕ) (layout : Layout) : HeapProg Unit :=
  match classIndex layout with
  | none => do
    change (·.count h (·.onLargeDealloc layout.size))
    change fun s => { s with pool := s.pool.deallocLargeToEnd ptr layout.size }
  | some c => do
    change (·.count h (·.onDealloc c (classSize c)))
    let slab := slabMask ptr
    let active ← look fun s => (s.heap h).bins c
    if active = some slab then change (·.deallocLocal slab ptr)
    else
      let own ← look fun s => decide ((s.headers slab).heapId = (s.heap h).id)
      if own then
        let free ← atomically (·.freeOwn h c slab ptr)
        if free then attempt (·.cacheSlab slab)
      else
        change (·.count h (·.onRemoteFree 1))
        change (·.deallocRemote slab ptr)

/-- Return a slab of a heap that ends. -/
def HeapProg.surrender (slab : ℕ) : HeapProg Unit := do
  attempt (·.drainRemote slab)
  let free ← look fun s => (s.headers slab).isFullyFree
  if free then attempt (·.cacheSlab slab) else change (·.abandonSlab slab)

/-- Take the active slab of a class. -/
def HeapSys.takeActive (s : HeapSys) (h c : ℕ) : HeapSys × Option ℕ :=
  match (s.heap h).bins c with
  | some slab => (s.setBin h c none, some slab)
  | none => (s, none)

/-- `retire_slab`. -/
def HeapProg.retireSlab (h c : ℕ) : HeapProg Unit := do
  match ← atomically fun s => .ok (s.takeActive h c) with
  | some slab => HeapProg.surrender slab
  | none => pure ()

/-- `slab_list_pop`. -/
def HeapSys.popQueue (s : HeapSys) (head : QueueHead) : HeapSys × Option ℕ :=
  match s.slabListPop head with
  | some (slab, s) => (s, some slab)
  | none => (s, none)

/-- The loop of `drop` over one queue. -/
def HeapProg.dropQueue (head : QueueHead) : ℕ → HeapProg Unit
  | 0 => do
    match ← atomically fun s => .ok (s.popQueue head) with
    | none => pure ()
    | some _ => fail .outOfFuel
  | fuel + 1 => do
    match ← atomically fun s => .ok (s.popQueue head) with
    | none => pure ()
    | some slab =>
      HeapProg.surrender slab
      dropQueue head fuel

/-- One round of the loop of `drop` over the classes. -/
def HeapProg.dropClass (h c : ℕ) : HeapProg Unit := do
  HeapProg.retireSlab h c
  let fuel ← look (·.pool.inUse.length)
  HeapProg.dropQueue ⟨h, .full, c⟩ fuel
  let fuel ← look (·.pool.inUse.length)
  HeapProg.dropQueue ⟨h, .part, c⟩ fuel

/-- `Drop` for a heap. -/
def HeapProg.dropHeap (h : ℕ) : HeapProg Unit := (List.range numClasses).forM (HeapProg.dropClass h)

variable {h c : ℕ} {reply : Option ℕ} {s : HeapSys}

/-- A computation that ended is followed by the next. -/
theorem ok_bind {α β : Type} (a : α) (f : α → Except HeapFault β) : (Except.ok a >>= f) = f a := rfl

/-- The result of a computation that ended is changed. -/
theorem map_ok {α β : Type} (f : α → β) (a : α) :
    (Except.ok a : Except HeapFault α).map f = .ok (f a) := rfl

/-- The scan of a full queue run alone. -/
theorem HeapProg.eval_scanLoop (fuel : ℕ) (current : Option ℕ) (s : HeapSys) :
    (HeapProg.scanLoop h c fuel current).eval reply s =
      (HeapSys.scanLoop h c fuel s current).map fun s => (s, ()) := by
  induction fuel generalizing s current with
  | zero => cases current <;> rfl
  | succ fuel ih =>
    cases current with
    | none => rfl
    | some slab =>
      have hdrain : s.drainPending slab = s.drainSeen slab (s.headers slab).hasPendingRemote := rfl
      unfold HeapProg.scanLoop HeapSys.scanLoop
      simp only [Prog.eval_bind, Prog.eval_look, Prog.eval_atomically, ok_bind,
        HeapSys.scanSlab, hdrain]
      cases s.drainSeen slab (s.headers slab).hasPendingRemote with
      | error e => rfl
      | ok s₁ =>
        simp only [ok_bind]
        split
        case isTrue =>
          cases s₁.slabListRemove slab with
          | error e => rfl
          | ok s₂ =>
            simp only [ok_bind, if_true, Prog.eval_bind, Prog.eval_attempt]
            cases s₂.cacheSlab slab with
            | error e => rfl
            | ok s₃ => exact ih _ s₃
        case isFalse =>
          split
          case isTrue =>
            cases s₁.slabListRemove slab with
            | error e => rfl
            | ok s₂ => exact ih _ _
          case isFalse => exact ih _ s₁

/-- `scan_full_list` run alone. -/
theorem HeapProg.eval_scanFullList (s : HeapSys) :
    (HeapProg.scanFullList h c).eval reply s = (s.scanFullList h c).map fun s => (s, ()) :=
  HeapProg.eval_scanLoop _ _ s

/-- The adoption of a chain run alone. -/
theorem HeapProg.eval_adoptLoop (fuel : ℕ) (current result : Option ℕ) (s : HeapSys) :
    (HeapProg.adoptLoop h c fuel current result).eval reply s =
      HeapSys.adoptLoop h c fuel s current result := by
  induction fuel generalizing s current result with
  | zero => cases current <;> rfl
  | succ fuel ih =>
    cases current with
    | none => rfl
    | some slab =>
      unfold HeapProg.adoptLoop HeapSys.adoptLoop
      simp only [Prog.eval_bind, Prog.eval_look, Prog.eval_change, Prog.eval_attempt, ok_bind,
        HeapSys.takeOver]
      cases (s.claim h slab).drainRemote slab with
      | error e => rfl
      | ok s₁ =>
        simp only [map_ok, ok_bind]
        split
        case isTrue =>
          simp only [Prog.eval_bind, Prog.eval_attempt]
          cases HeapSys.cacheSlab _ slab with
          | error e => rfl
          | ok s₂ => exact ih _ _ s₂
        case isFalse => exact ih _ _ _

/-- `try_adopt` run alone. -/
theorem HeapProg.eval_tryAdopt (s : HeapSys) :
    (HeapProg.tryAdopt h c).eval reply s = s.tryAdopt h c :=
  HeapProg.eval_adoptLoop _ _ none _

/-- The page of `uncache_slab`, or else of `alloc_slab`. -/
theorem HeapSys.openCached_cases (s : HeapSys) (h c : ℕ) (reply : Option ℕ) :
    (∃ pool page, s.pool.takeSlab reply = some (pool, some page) ∧
        s.openCached h c = ((HeapSys.openSlab { s with pool := pool } h c page).1,
          some (HeapSys.openSlab { s with pool := pool } h c page).2)) ∨
      s.openCached h c = (s, none) ∧ s.pool.takeSlab reply =
        (s.pool.core.allocSlabToEnd 0 reply).map fun r => ({ s.pool with core := r.1 }, r.2) := by
  unfold HeapSys.openCached PagePool.takeSlab
  cases hcache : s.pool.slabCache with
  | nil =>
    refine .inr ⟨rfl, ?_⟩
    cases s.pool.core.allocSlabToEnd 0 reply with
    | none => rfl
    | some found => simp [hcache]
  | cons page rest => exact .inl ⟨_, page, rfl, rfl⟩

/-- The use of a page, written out. -/
theorem HeapSys.ok_openSlab (s : HeapSys) (h c page : ℕ) :
    (Except.ok (s.openSlab h c page) : Except HeapFault (HeapSys × Option ℕ)) =
      match (s.slabInit page c (s.heap h).id).slabAlloc page with
      | (s, some ptr) =>
        .ok ((s.setBin h c (some page)).count h (·.onAlloc c (classSize c)), some ptr)
      | (s, none) => .ok (s.setBin h c (some page), none) := by
  unfold HeapSys.openSlab
  rcases (s.slabInit page c (s.heap h).id).slabAlloc page with ⟨s₁, ptr⟩
  cases ptr <;> rfl

/-- `request_slab` run alone. -/
theorem HeapProg.eval_requestSlab (s : HeapSys) :
    (HeapProg.requestSlab h c).eval reply s = s.requestSlab h c reply := by
  unfold HeapProg.requestSlab HeapSys.requestSlab
  rw [Prog.eval_bind, HeapProg.eval_tryAdopt]
  cases s.tryAdopt h c with
  | error e => rfl
  | ok adopted =>
    obtain ⟨s₁, result⟩ := adopted
    cases result with
    | some ptr => rfl
    | none =>
      simp only [ok_bind, Prog.eval_bind, Prog.eval_atomically]
      rcases s₁.openCached_cases h c reply with ⟨pool, page, htake, hopen⟩ | ⟨hopen, htake⟩
      · rw [hopen, htake]
        exact HeapSys.ok_openSlab _ h c page
      · rw [hopen, htake]
        simp only [Prog.eval_asking, HeapSys.openFresh]
        cases s₁.pool.core.allocSlabToEnd 0 reply with
        | none => rfl
        | some found =>
          obtain ⟨core, page⟩ := found
          cases page with
          | none => rfl
          | some page => exact HeapSys.ok_openSlab _ h c page

/-- The part behind an empty bin run alone. -/
theorem HeapProg.eval_refill {again : HeapProg (Option ℕ)}
    {again' : HeapSys → Except HeapFault (HeapSys × Option ℕ)}
    (hagain : ∀ s, again.eval reply s = again' s) (s : HeapSys) :
    (HeapProg.refill h c again).eval reply s = HeapSys.refill h c reply again' s := by
  unfold HeapProg.refill HeapSys.refill
  simp only [Prog.eval_bind, Prog.eval_atomically, ok_bind]
  rcases s.tryPartial h c with ⟨s₁, found⟩
  cases found with
  | true => exact hagain s₁
  | false =>
    simp only [Bool.false_eq_true, if_false, Prog.eval_bind, HeapProg.eval_scanFullList]
    cases s₁.scanFullList h c with
    | error e => rfl
    | ok s₂ =>
      simp only [map_ok, ok_bind, Prog.eval_look]
      split
      case isTrue => exact hagain s₂
      case isFalse =>
        simp only [Prog.eval_bind, Prog.eval_atomically, ok_bind]
        rcases s₂.tryPartial h c with ⟨s₃, found⟩
        cases found with
        | true => exact hagain s₃
        | false => exact HeapProg.eval_requestSlab s₃

/-- `Heap::alloc` for a class run alone. -/
theorem HeapProg.eval_allocClass (fuel : ℕ) (s : HeapSys) :
    (HeapProg.allocClass h c fuel).eval reply s = HeapSys.allocClass h c reply fuel s := by
  induction fuel generalizing s with
  | zero => rfl
  | succ fuel ih =>
    unfold HeapProg.allocClass HeapSys.allocClass
    simp only [Prog.eval_bind, Prog.eval_look, ok_bind]
    cases (s.heap h).bins c with
    | none => exact HeapProg.eval_refill ih s
    | some slab =>
      simp only [Prog.eval_bind, Prog.eval_atomically, ok_bind, HeapSys.allocActive]
      rcases s.slabAlloc slab with ⟨s₁, first⟩
      cases first with
      | some ptr => rfl
      | none =>
        simp only [Prog.eval_bind, Prog.eval_attempt]
        cases s₁.drainRemote slab with
        | error e => rfl
        | ok s₂ =>
          simp only [map_ok, ok_bind, Prog.eval_atomically]
          rcases s₂.slabAlloc slab with ⟨s₃, second⟩
          cases second with
          | some ptr => rfl
          | none => exact HeapProg.eval_refill ih _

/-- `Heap::alloc` run without interruption is the whole operation. -/
theorem HeapProg.eval_alloc (layout : Layout) (s : HeapSys) :
    (HeapProg.alloc h layout).eval reply s = s.alloc h layout reply := by
  unfold HeapProg.alloc HeapSys.alloc
  cases classIndex layout with
  | none => exact Prog.eval_asking _ _ s
  | some c => exact HeapProg.eval_allocClass 2 s

/-- `Heap::dealloc` run without interruption is the whole operation. -/
theorem HeapProg.eval_dealloc (ptr : ℕ) (layout : Layout) (s : HeapSys) :
    (HeapProg.dealloc h ptr layout).eval reply s = (s.dealloc h ptr layout).map fun s =>
      (s, ()) := by
  unfold HeapProg.dealloc HeapSys.dealloc
  cases classIndex layout with
  | none => rfl
  | some c =>
    simp only [Prog.eval_bind, Prog.eval_change, Prog.eval_look, ok_bind]
    generalize s.count h (·.onDealloc c (classSize c)) = s₁
    split
    case isTrue => rfl
    case isFalse =>
      simp only [Prog.eval_bind, Prog.eval_look, ok_bind, decide_eq_true_eq]
      split
      case isTrue =>
        simp only [Prog.eval_bind, Prog.eval_atomically, HeapSys.freeOwn, HeapSys.deallocOwn]
        generalize s₁.deallocLocal (slabMask ptr) ptr = s₂
        split
        case isTrue =>
          unfold HeapSys.reclaimSlab
          cases s₂.slabListRemove (slabMask ptr) with
          | error e => rfl
          | ok s₃ =>
            simp only [ok_bind, if_true]
            exact Prog.eval_attempt reply _ s₃
        case isFalse =>
          split
          case isTrue =>
            cases s₂.slabListRemove (slabMask ptr) with
            | error e => rfl
            | ok s₃ => rfl
          case isFalse => rfl
      case isFalse => rfl

/-- Giving up one slab run alone. -/
theorem HeapProg.eval_surrender (slab : ℕ) (s : HeapSys) :
    (HeapProg.surrender slab).eval reply s = (s.surrender slab).map fun s => (s, ()) := by
  unfold HeapProg.surrender HeapSys.surrender
  simp only [Prog.eval_bind, Prog.eval_attempt]
  cases s.drainRemote slab with
  | error e => rfl
  | ok s₁ =>
    simp only [map_ok, ok_bind, Prog.eval_look]
    split
    case isTrue => exact Prog.eval_attempt reply _ s₁
    case isFalse => rfl

/-- `retire_slab` run alone. -/
theorem HeapProg.eval_retireSlab (s : HeapSys) :
    (HeapProg.retireSlab h c).eval reply s = (s.retireSlab h c).map fun s => (s, ()) := by
  unfold HeapProg.retireSlab HeapSys.retireSlab
  simp only [Prog.eval_bind, Prog.eval_atomically, ok_bind, HeapSys.takeActive]
  cases (s.heap h).bins c with
  | none => rfl
  | some slab => exact HeapProg.eval_surrender slab _

/-- Giving up the slabs of a queue run alone. -/
theorem HeapProg.eval_dropQueue (head : QueueHead) (fuel : ℕ) (s : HeapSys) :
    (HeapProg.dropQueue head fuel).eval reply s = (HeapSys.dropQueue head fuel s).map fun s =>
      (s, ()) := by
  induction fuel generalizing s with
  | zero =>
    unfold HeapProg.dropQueue HeapSys.dropQueue
    simp only [Prog.eval_bind, Prog.eval_atomically, ok_bind, HeapSys.popQueue]
    cases s.slabListPop head <;> rfl
  | succ fuel ih =>
    unfold HeapProg.dropQueue HeapSys.dropQueue
    simp only [Prog.eval_bind, Prog.eval_atomically, ok_bind, HeapSys.popQueue]
    cases s.slabListPop head with
    | none => rfl
    | some popped =>
      obtain ⟨slab, s₁⟩ := popped
      simp only [Prog.eval_bind, HeapProg.eval_surrender]
      cases s₁.surrender slab with
      | error e => rfl
      | ok s₂ => exact ih s₂

/-- One class of `drop` run alone. -/
theorem HeapProg.eval_dropClass (s : HeapSys) :
    (HeapProg.dropClass h c).eval reply s = (HeapSys.dropClass h s c).map fun s => (s, ()) := by
  unfold HeapProg.dropClass HeapSys.dropClass
  simp only [Prog.eval_bind, HeapProg.eval_retireSlab]
  cases s.retireSlab h c with
  | error e => rfl
  | ok s₁ =>
    simp only [ok_bind, map_ok, Prog.eval_look, HeapProg.eval_dropQueue]
    cases HeapSys.dropQueue ⟨h, .full, c⟩ s₁.pool.inUse.length s₁ with
    | error e => rfl
    | ok s₂ => rfl

/-- `Drop` run without interruption is the whole operation. -/
theorem HeapProg.eval_dropHeap (s : HeapSys) :
    (HeapProg.dropHeap h).eval reply s = (s.dropHeap h).map fun s => (s, ()) := by
  unfold HeapProg.dropHeap HeapSys.dropHeap
  generalize List.range numClasses = classes
  induction classes generalizing s with
  | nil => rfl
  | cons c classes ih =>
    change (HeapProg.dropClass h c >>= fun _ => classes.forM (HeapProg.dropClass h)).eval reply s =
      _
    rw [List.foldlM_cons, Prog.eval_bind, HeapProg.eval_dropClass]
    cases HeapSys.dropClass h s c with
    | error e => rfl
    | ok s₁ => exact ih s₁

end ClMalloc
