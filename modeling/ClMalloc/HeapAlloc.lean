import ClMalloc.HeapAdopt

/-!
# Allocation from the heaps

Every request ends without a fault and keeps the invariant; the pointer it returns joins the
live allocations. The recursion of `alloc` is at most one deep, because it recurses only
after a slab with an available slot became the active one.
-/

namespace ClMalloc

open Intrusive Placement Transition

variable {s s' : HeapSys} {live : List Allocation} {lists : SlabPlace → List ℕ}
  {roster handles : List ℕ} {busy : Option ℕ} {h c slab ptr : ℕ} {layout : Layout}
  {result : Option ℕ}

/-- A request ends with the invariant, its pointer live; or the page allocator broke its
contract. -/
def Served (outcome : Except HeapFault (HeapSys × Option ℕ)) (reply : Option ℕ) (layout : Layout)
    (live : List Allocation) (roster handles : List ℕ) : Prop :=
  (∃ s' result lists', outcome = .ok (s', result) ∧
    Ready s' (withResult result layout live) lists' roster handles) ∨
    (outcome = .error .badReply ∧ reply ≠ none)

variable {reply : Option ℕ}

/-- Counting an allocation keeps what a helper left. -/
theorem Ready.count (hready : Ready s live lists roster handles) (h : ℕ)
    (f : HeapMetrics → HeapMetrics) :
    Ready (s.count h f) live lists roster handles :=
  ⟨hready.inv.count h f, hready.hand⟩

/-- The end of `request_slab`: a page of the cache or the pool becomes the active slab. -/
def HeapSys.takePage (h c : ℕ) (reply : Option ℕ) (s : HeapSys) :
    Except HeapFault (HeapSys × Option ℕ) :=
  match s.pool.takeSlab reply with
  | none => .error .badReply
  | some (pool, none) => .ok ({ s with pool := pool }, none)
  | some (pool, some page) =>
    match (HeapSys.slabInit { s with pool := pool } page c (s.heap h).id).slabAlloc page with
    | (s, some ptr) =>
      .ok ((s.setBin h c (some page)).count h (·.onAlloc c (classSize c)), some ptr)
    | (s, none) => .ok (s.setBin h c (some page), none)

variable (take again : HeapSys → Except HeapFault (HeapSys × Option ℕ))

/-- `request_slab` with the use of a page left open. -/
def HeapSys.requestWith (h c : ℕ) (s : HeapSys) : Except HeapFault (HeapSys × Option ℕ) := do
  match ← s.tryAdopt h c with
  | (s, some ptr) => .ok (s.count h (·.onAlloc c (classSize c)), some ptr)
  | (s, none) => take s

/-- The part of `Heap::alloc` behind an empty bin, with the use of a page and the recursive call
left open. -/
def HeapSys.refillWith (h c : ℕ) (s : HeapSys) : Except HeapFault (HeapSys × Option ℕ) :=
  match s.tryPartial h c with
  | (s, true) => again s
  | (s, false) => do
    let s ← s.scanFullList h c
    if (s.heap h).bins c ≠ none then again s
    else
      match s.tryPartial h c with
      | (s, true) => again s
      | (s, false) => s.requestWith take h c

/-- `Heap::alloc` for a size class, with the use of a page and the recursive call left open. -/
def HeapSys.allocWith (h c : ℕ) (s : HeapSys) : Except HeapFault (HeapSys × Option ℕ) :=
  match (s.heap h).bins c with
  | none => s.refillWith take again h c
  | some slab =>
    match s.slabAlloc slab with
    | (s, some ptr) => .ok (s.count h (·.onAlloc c (classSize c)), some ptr)
    | (s, none) => do
      let s ← s.drainRemote slab
      match s.slabAlloc slab with
      | (s, some ptr) => .ok (s.count h (·.onAlloc c (classSize c)), some ptr)
      | (s, none) => (s.retireActive h c).refillWith take again h c

/-- `Heap::alloc` with what was left open filled in. -/
theorem HeapSys.allocClass_succ (h c : ℕ) (reply : Option ℕ) (fuel : ℕ) (s : HeapSys) :
    HeapSys.allocClass h c reply (fuel + 1) s =
      s.allocWith (HeapSys.takePage h c reply) (HeapSys.allocClass h c reply fuel) h c := rfl

variable {take again}

/-- What is known when `alloc` takes a page, of the state `s` it started in and the state `s'` it
has reached. -/
structure Spent (h c : ℕ) (live : List Allocation) (lists : SlabPlace → List ℕ) (s s' : HeapSys) :
    Prop where
  active : ∀ p ∈ lists (.bin h c), s.noneFree p = true
  part : lists (.queue ⟨h, .part, c⟩) = []
  full : ∀ p ∈ lists (.queue ⟨h, .full, c⟩), s.partFree p = false
  abandoned : ∀ p ∈ s.pool.abandoned c, s.partFree p = false
  recycled : ∃ pool, run PagePool.recycle s.pool
      ((lists (.bin h c) ++ lists (.queue ⟨h, .full, c⟩)).map fun p => (p, s.allFree p)) =
      some pool ∧
    run (PagePool.readopt c) (pool.adoptAll 0 c)
      ((s.pool.abandoned c).map fun p => (p, s.allFree p)) = some s'.pool
  keeps : s.Keeps s' live

/-- The three ways a call of `alloc` goes: it returns a slot, it recurses, or it takes a page. -/
inductive AllocPath (h c : ℕ) (layout : Layout) (live : List Allocation)
    (lists : SlabPlace → List ℕ) (roster handles : List ℕ) (s : HeapSys)
    (body : (HeapSys → Except HeapFault (HeapSys × Option ℕ)) →
      (HeapSys → Except HeapFault (HeapSys × Option ℕ)) →
      Except HeapFault (HeapSys × Option ℕ)) : Prop
  | served {s' : HeapSys} {ptr : ℕ} {lists' : SlabPlace → List ℕ}
      (heq : ∀ take again, body take again = .ok (s', some ptr))
      (hready : Ready s' (⟨ptr, layout⟩ :: live) lists' roster handles)
  | recursed {s' : HeapSys} {lists' : SlabPlace → List ℕ} (heq : ∀ take again,
      body take again = again s')
      (hready : Ready s' live lists' roster handles) (hbin : s'.BinReady h c)
      (hactive : (s'.heap h).bins c ≠ none)
  | page {s' : HeapSys} {lists' : SlabPlace → List ℕ} (heq : ∀ take again,
      body take again = take s')
      (hready : Ready s' live lists' roster handles) (hempty : (s'.heap h).bins c = none)
      (hspent : Spent h c live lists s s')

/-- A slab of a list without partly free ones is not partly free. -/
theorem partFree_of_filter {seen : List ℕ} {p : ℕ} (hnil : seen.filter s.partFree = [])
    (hp : p ∈ seen) :
    s.partFree p = false := by
  rw [List.filter_eq_nil_iff] at hnil
  simpa using hnil p hp

/-- Taking a page behind an empty bin ends. -/
theorem Ready.takePage (hready : Ready s live lists roster handles) (hheap : h ∈ roster)
    (hrange : c < numClasses) (hlayout : classIndex layout = some c) (hsize : 1 ≤ layout.size)
    (hempty : (s.heap h).bins c = none) :
    Served (s.takePage h c reply) reply layout live roster handles := by
  unfold HeapSys.takePage
  cases htake : s.pool.takeSlab reply with
  | none =>
    refine .inr ⟨rfl, ?_⟩
    rintro rfl
    have hsome : (s.pool.takeSlab none).isSome = true := hready.inv.quiet.takeSlab_isSome (by simp)
    simp [htake] at hsome
  | some taken =>
    obtain ⟨pool, page⟩ := taken
    cases page with
    | none => exact .inl ⟨_, none, _, rfl, hready.inv.takeSlab_none htake, hready.hand⟩
    | some page =>
      simp only
      have hinit := hready.inv.takeSlab hready.hand htake c (s.heap h).id
      have hpage : page ∈ withHand lists [page] .hand := by simp
      have hbelongs : (HeapSys.slabInit { s with
          pool := pool } page c (s.heap h).id).Belongs roster h c page :=
        ⟨hheap, hrange, by simp [HeapSys.slabInit, SlabHeader.init],
          by simp [HeapSys.slabInit, SlabHeader.init]⟩
      have hlinks : (HeapSys.slabInit { s with
          pool := pool } page c (s.heap h).id).links.next page = none ∧
          (HeapSys.slabInit { s with
            pool := pool } page c (s.heap h).id).links.prev page = none := by
        simp [HeapSys.slabInit, Links.setNext, Links.setPrev, Links.write]
      have hbins : (HeapSys.slabInit { s with pool := pool } page c (s.heap h).id).heap = s.heap :=
        rfl
      have hhand {lists : SlabPlace → List ℕ} (hhand : lists .hand = [page]) :
          transfer lists .hand (.bin h c) page .hand = [] := by
        rw [transfer_src (by simp), hhand]
        simp
      generalize HeapSys.slabInit { s with pool := pool } page c (s.heap h).id = s₂ at *
      rcases hinit.slabAlloc (.inl rfl) (hinit.held hpage)
        (by rw [hbelongs.classIdx, hlayout]) hsize with
        ⟨heq, -⟩ | ⟨ptr, list, cursor, remaining, heq, hinv, -⟩
      · simp only [heq]
        have hactive := hinit.setBin_some (h := h) (c := c) hpage
          (by rw [hbins]; exact hempty) hbelongs hlinks
        exact .inl ⟨_, none, _, rfl, hactive, hhand (withHand_hand _)⟩
      · simp only [heq]
        have hsettled := hinv.settle_of_notMem (hinit.notMem_queue hpage)
        have hactive := hsettled.setBin_some (h := h) (c := c) hpage
          (show (s₂.heap h).bins c = none by rw [hbins]; exact hempty)
          ⟨hheap, hrange, by simpa [HeapSys.setHeader] using hbelongs.classIdx,
            by simpa [HeapSys.setHeader] using hbelongs.heapId⟩ hlinks
        exact .inl ⟨_, some ptr, _, rfl, hactive.count h _, hhand (withHand_hand _)⟩

/-- `request_slab` returns a slot of an adopted slab, or takes a page and then no abandoned slab was
partly free. -/
theorem Ready.requestWith (hready : Ready s live lists roster handles) (hheap : h ∈ roster)
    (hrange : c < numClasses) (hlayout : classIndex layout = some c) (hsize : 1 ≤ layout.size)
    (hempty : (s.heap h).bins c = none) :
    (∃ s' ptr lists', (∀ take, s.requestWith take h c = .ok (s', some ptr)) ∧
        Ready s' (⟨ptr, layout⟩ :: live) lists' roster handles) ∨
      ∃ s' lists', (∀ take, s.requestWith take h c = take s') ∧
        Ready s' live lists' roster handles ∧
        (s'.heap h).bins c = none ∧ (∀ p ∈ s.pool.abandoned c, s.partFree p = false) ∧
        run (PagePool.readopt c) (s.pool.adoptAll 0 c)
          ((s.pool.abandoned c).map fun p => (p, s.allFree p)) =
          some s'.pool ∧ s.Keeps s' live := by
  obtain ⟨s', result, lists', used, hadopt, hready', hadopted⟩ :=
    hready.tryAdopt hheap hrange hlayout hsize hempty
  have hactive := hadopted.bin_iff (by rw [withHand_bin, hready.inv.bins, hempty]; simp)
  have hswept := hadopted.sweep
  cases hadopted.handed with
  | kept hkept =>
    have hnil := hkept.resolve_left fun hne => hne rfl
    have hempty' : (s'.heap h).bins c = none := by
      have hbins := hready'.inv.bins h c
      rw [hactive.mp rfl] at hbins
      simpa using hbins.symm
    refine .inr ⟨s', lists',
      fun take => by simp only [HeapSys.requestWith, hadopt, bind, Except.bind], hready', hempty',
      fun p hp => partFree_of_filter hnil hp, hswept.pool, ?_⟩
    exact hswept.keeps (hready.inv.adoptAll hready.hand hrange)
  | supplied =>
    rename_i slab ptr hfirst hslot
    refine .inl ⟨s'.count h (·.onAlloc c (classSize c)), ptr, lists', fun take => ?_,
      hready'.count h _⟩
    simp only [HeapSys.requestWith, hadopt, bind, Except.bind]

/-- `cache_slab` leaves the abandoned lists. -/
theorem PagePool.cacheSlabToEnd_abandoned {pool pool' : PagePool}
    (hcache : pool.cacheSlabToEnd slab = some pool') :
    pool'.abandoned = pool.abandoned := by
  unfold PagePool.cacheSlabToEnd PagePool.cacheSlab at hcache
  split at hcache
  · split at hcache <;> cases hcache
    rfl
  · cases hcache
    rfl

/-- A scan leaves the abandoned lists. -/
theorem recycle_abandoned {pool pool' : PagePool} {slabs : List (ℕ × Bool)}
    (hrun : run PagePool.recycle pool slabs = some pool') : pool'.abandoned = pool.abandoned := by
  refine run_invariant (I := fun p => p.abandoned = pool.abandoned)
    (fun p slab p' hp hstep => ?_) rfl hrun
  unfold PagePool.recycle at hstep
  split at hstep
  · rw [PagePool.cacheSlabToEnd_abandoned hstep, hp]
  · cases hstep
    exact hp

/-- A slab with an available slot in the bin. -/
theorem binReady_of_some (hslab : (s.heap h).bins c = some slab)
    (hpos : 0 < (s.headers slab).freeCount) :
    s.BinReady h c ∧ (s.heap h).bins c ≠ none := by
  refine ⟨fun p hp => ?_, by simp [hslab]⟩
  rw [hslab, Option.some.injEq] at hp
  exact hp ▸ hpos

/-- The ways a call goes behind an empty bin. -/
theorem Ready.refillWith (hready : Ready s live lists roster handles) (hheap : h ∈ roster)
    (hrange : c < numClasses) (hlayout : classIndex layout = some c) (hsize : 1 ≤ layout.size)
    (hempty : (s.heap h).bins c = none) :
    AllocPath h c layout live lists roster handles s fun take again =>
      s.refillWith take again h c := by
  have hnoBin : lists (.bin h c) = [] := by
    rw [hready.inv.bins, hempty]
    rfl
  rcases hready.tryPartial hempty with ⟨hpopped, hpart⟩ |
    ⟨s₁, lists₁, slab, hpopped, hready₁, hslab, hpos⟩
  · obtain ⟨s₁, lists₁, hscan, -, hready₁, hresult⟩ := hready.scanFullList h c
    by_cases hempty₁ : (s₁.heap h).bins c = none
    · have hnoBin₁ : lists₁ (.bin h c) = [] := by
        rw [hready₁.inv.bins, hempty₁]
        rfl
      have hfull : (lists (.queue ⟨h, .full, c⟩)).filter s.partFree = [] := by
        have hactive := hresult.filed.active
        rw [hnoBin₁, hnoBin, List.nil_append] at hactive
        simpa using hactive.symm
      have hpopped₁ : s₁.tryPartial h c = (s₁, false) := by
        have hpart₁ := hresult.filed.part
        rw [hnoBin, hfull, hpart] at hpart₁
        simp only [HeapSys.tryPartial, hready₁.inv.slabListPop_nil hpart₁]
      have hbody (take again : HeapSys → Except HeapFault (HeapSys × Option ℕ)) :
          s.refillWith take again h c = s₁.requestWith take h c := by
        simp only [HeapSys.refillWith, hpopped, hscan, bind, Except.bind, hpopped₁]
        rw [if_neg (by simpa using hempty₁)]
      rcases hready₁.requestWith hheap hrange hlayout hsize hempty₁ with
        ⟨s', ptr, lists', heq, hready'⟩ |
        ⟨s', lists', heq, hready', hempty', horphans, hpool, hkeeps⟩
      · exact .served (fun take again => by rw [hbody, heq]) hready'
      · have habandoned : s₁.pool.abandoned = s.pool.abandoned :=
          recycle_abandoned hresult.sweep.pool
        rw [habandoned] at horphans hpool
        have hkinds {p : ℕ} (hp : p ∈ s.pool.abandoned c) :=
          hready.inv.kinds_eq (.inr ⟨c, hp⟩) (hresult.sweep.same p
          fun hin => hready.inv.notMem_abandoned hin c hp)
        refine .page (fun take again => by rw [hbody, heq]) hready' hempty' ?_
        constructor
        case active => simp [hnoBin]
        case part => exact hpart
        case full => exact fun p hp => partFree_of_filter hfull hp
        case abandoned =>
          intro p hp
          rw [← (hkinds hp).2.2]
          exact horphans p hp
        case recycled =>
          refine ⟨s₁.pool, by rw [hnoBin]; exact hresult.sweep.pool, ?_⟩
          rw [← hpool]
          congr 1
          exact List.map_congr_left fun p hp => by rw [(hkinds hp).1]
        case keeps => exact (hresult.sweep.keeps hready.inv).trans hkeeps
    · refine .recursed (fun take again => ?_) hready₁
        (hresult.binReady hready.inv hready₁.inv hempty) hempty₁
      simp only [HeapSys.refillWith, hpopped, hscan, bind, Except.bind]
      rw [if_pos hempty₁]
  · refine .recursed (fun take again => by simp only [HeapSys.refillWith, hpopped]) hready₁ ?_ ?_
    · exact (binReady_of_some hslab hpos).1
    · exact (binReady_of_some hslab hpos).2

/-- The active slab has nothing left: what is spent after it was retired was spent at the start. -/
theorem Spent.of_retired {s₁ : HeapSys} {lists₁ : SlabPlace → List ℕ}
    (hinv : HeapInv s live lists roster handles none) (hslab : (s.heap h).bins c = some slab)
    (hdrains : s.Drains s₁ slab) (hzero : (s₁.headers slab).freeCount = 0)
    (hnoBin : lists₁ (.bin h c) = [])
    (hfull : lists₁ (.queue ⟨h, .full, c⟩) = slab :: lists (.queue ⟨h, .full, c⟩))
    (hpart : lists₁ (.queue ⟨h, .part, c⟩) = lists (.queue ⟨h, .part, c⟩))
    (hspent : Spent h c live lists₁ (s₁.retireActive h c) s') : Spent h c live lists s s' := by
  obtain ⟨hheaders, hnext, hpool⟩ := s₁.retireActive_frame h c
  have hsame (p : ℕ) : s₁.SameSlab (s₁.retireActive h c) p :=
    ⟨by rw [hheaders], fun _ _ => by rw [hnext]⟩
  have hkinds (p : ℕ) (hp : s.pool.Held p) : (s₁.retireActive h c).allFree p = s.allFree p ∧
      (s₁.retireActive h c).partFree p = s.partFree p := by
    have hretired : (s₁.retireActive h c).allFree p = s₁.allFree p ∧
        (s₁.retireActive h c).partFree p = s₁.partFree p := by
      unfold HeapSys.partFree HeapSys.noneFree HeapSys.allFree HeapSys.freeTotal
      rw [hheaders, hnext]
      exact ⟨rfl, rfl⟩
    rw [hretired.1, hretired.2]
    by_cases hps : p = slab
    · subst hps
      exact ⟨hdrains.merged.kinds_eq.1, hdrains.merged.kinds_eq.2.2⟩
    · have heq := hinv.kinds_eq hp (hdrains.others p hps)
      exact ⟨heq.1, heq.2.2⟩
  have hpool' : (s₁.retireActive h c).pool = s.pool := hpool.trans hdrains.pool
  have hbin : lists (.bin h c) = [slab] := by
    rw [hinv.bins, hslab]
    rfl
  have hheld {p : ℕ} (hp : p ∈ slab :: lists (.queue ⟨h, .full, c⟩)) : s.pool.Held p := by
    rcases List.mem_cons.mp hp with rfl | hp
    · exact hinv.held (hinv.mem_bin.mpr hslab)
    · exact hinv.held hp
  constructor
  case active =>
    intro p hp
    rw [hbin, List.mem_singleton] at hp
    subst hp
    rw [HeapSys.noneFree, ← hdrains.merged.count, hzero]
    rfl
  case part => rw [← hpart, hspent.part]
  case full =>
    intro p hp
    have hfree := hspent.full p (by rw [hfull]; exact List.mem_cons_of_mem _ hp)
    rwa [(hkinds p (hinv.held hp)).2] at hfree
  case abandoned =>
    intro p hp
    have hfree := hspent.abandoned p (by rw [hpool']; exact hp)
    rwa [(hkinds p (.inr ⟨c, hp⟩)).2] at hfree
  case recycled =>
    obtain ⟨pool, hscan, hadopt⟩ := hspent.recycled
    rw [hpool', hnoBin, hfull, List.nil_append] at hscan
    rw [hpool'] at hadopt
    refine ⟨pool, ?_, ?_⟩
    · rw [hbin, List.singleton_append, ← hscan]
      congr 1
      exact List.map_congr_left fun p hp => by rw [(hkinds p (hheld hp)).1]
    · rw [← hadopt]
      congr 1
      exact List.map_congr_left fun p hp => by rw [(hkinds p (.inr ⟨c, hp⟩)).1]
  case keeps =>
    refine ((hdrains.keeps hinv).trans fun a ha hclass => ?_).trans hspent.keeps
    rw [hnext, HeapSys.freeTotal, HeapSys.freeTotal, hheaders, hnext]
    exact ⟨rfl, rfl⟩

/-- A slot of the active slab is returned. -/
theorem HeapInv.served (hinv : HeapInv s (⟨ptr, layout⟩ :: live) lists roster handles (some slab))
    (hslab : slab ∈ lists (.bin h c)) (hhand : lists .hand = []) (f : HeapMetrics → HeapMetrics) :
    Ready (s.count h f) (⟨ptr, layout⟩ :: live) lists roster handles := by
  have hsettled := hinv.settle_of_notMem fun head hin => by
    have := hinv.separate.unique hin hslab
    simp at this
  exact ⟨hsettled.count h f, hhand⟩

/-- The ways a call goes. -/
theorem Ready.allocWith (hready : Ready s live lists roster handles) (hheap : h ∈ roster)
    (hrange : c < numClasses) (hlayout : classIndex layout = some c) (hsize : 1 ≤ layout.size) :
    AllocPath h c layout live lists roster handles s fun take again =>
      s.allocWith take again h c := by
  have hinv := hready.inv
  cases hbins : (s.heap h).bins c with
  | none =>
    have hbody (take again : HeapSys → Except HeapFault (HeapSys × Option ℕ)) :
        s.allocWith take again h c = s.refillWith take again h c := by
          simp only [HeapSys.allocWith, hbins]
    simp only [hbody]
    exact hready.refillWith hheap hrange hlayout hsize hbins
  | some slab =>
    have hmem := hinv.mem_bin.mpr hbins
    have hclass : classIndex layout = some (s.headers slab).sizeClassIndex := by
      rw [(hinv.belongs (.bin h c) h c rfl slab hmem).classIdx, hlayout]
    rcases hinv.slabAlloc (.inl rfl) (hinv.held hmem) hclass hsize with
      ⟨heq, -⟩ | ⟨ptr, list, cursor, remaining, heq, hinv', -⟩
    · obtain ⟨s₁, hdrain, hdrained, hdrains⟩ := hinv.drains (hinv.held hmem)
      have hsettled := hdrained.settle_of_notMem fun head hin => by
        have := hinv.separate.unique hin hmem
        simp at this
      have hbins₁ : (s₁.heap h).bins c = some slab := by rw [hdrains.heap, hbins]
      have hclass₁ : classIndex layout = some (s₁.headers slab).sizeClassIndex := by
        rw [(hsettled.belongs (.bin h c) h c rfl slab hmem).classIdx, hlayout]
      rcases hsettled.slabAlloc (.inl rfl) (hsettled.held hmem) hclass₁ hsize with
        ⟨heq₁, hzero⟩ | ⟨ptr, list, cursor, remaining, heq₁, hinv₁, -⟩
      · obtain ⟨lists₂, hready₂, hempty, hfull, hpart⟩ :=
          Ready.retireActive ⟨hsettled, hready.hand⟩ hbins₁ hzero
        have hbody (take again : HeapSys → Except HeapFault (HeapSys × Option ℕ)) :
            s.allocWith take again h c = (s₁.retireActive h c).refillWith take again h c := by
          simp only [HeapSys.allocWith, hbins, heq, hdrain, bind, Except.bind, heq₁]
        have hnoBin : lists₂ (.bin h c) = [] := by
          rw [hready₂.inv.bins, hempty]
          rfl
        simp only [hbody]
        cases hready₂.refillWith hheap hrange hlayout hsize hempty with
        | served heq' hready' => exact .served heq' hready'
        | recursed heq' hready' hbin hactive => exact .recursed heq' hready' hbin hactive
        | page heq' hready' hempty' hspent =>
          exact .page heq' hready' hempty'
            (hspent.of_retired hinv hbins hdrains hzero hnoBin hfull hpart)
      · refine .served (fun take again => ?_)
          (hinv₁.served hmem hready.hand (·.onAlloc c (classSize c)))
        simp only [HeapSys.allocWith, hbins, heq, hdrain, bind, Except.bind, heq₁]
    · refine .served (fun take again => ?_)
        (hinv'.served hmem hready.hand (·.onAlloc c (classSize c)))
      simp only [HeapSys.allocWith, hbins, heq]

/-- The active slab with an available slot serves a request at once. -/
theorem Ready.serves_first (hready : Ready s live lists roster handles)
    (hlayout : classIndex layout = some c) (hsize : 1 ≤ layout.size) (hbin : s.BinReady h c)
    (hactive : (s.heap h).bins c ≠ none) :
    ∃ slab s' ptr, (s.heap h).bins c = some slab ∧ s.slabAlloc slab = (s', some ptr) ∧
      Ready (s'.count h (·.onAlloc c (classSize c)))
        (⟨ptr, layout⟩ :: live) lists roster handles := by
  obtain ⟨slab, hslab⟩ := Option.ne_none_iff_exists'.mp hactive
  have hinv := hready.inv
  have hmem := hinv.mem_bin.mpr hslab
  have hbelongs := hinv.belongs (.bin h c) h c rfl slab hmem
  have hpos := hbin slab hslab
  rcases hinv.slabAlloc (.inl rfl) (hinv.held hmem) (by rw [hbelongs.classIdx, hlayout]) hsize with
    ⟨-, hzero⟩ | ⟨ptr, list, cursor, remaining, heq, hinv', -⟩
  · omega
  · exact ⟨slab, _, ptr, hslab, heq, hinv'.served hmem hready.hand _⟩

/-- `Heap::alloc` for a class serves every request; one recursive call is enough. -/
theorem Ready.allocClass (hready : Ready s live lists roster handles) (hheap : h ∈ roster)
    (hrange : c < numClasses) (hlayout : classIndex layout = some c) (hsize : 1 ≤ layout.size) :
    Served (HeapSys.allocClass h c reply 2 s) reply layout live roster handles := by
  rw [HeapSys.allocClass_succ]
  cases hready.allocWith hheap hrange hlayout hsize with
  | served heq hready' =>
    rw [heq]
    exact .inl ⟨_, some _, _, rfl, hready'⟩
  | recursed heq hready' hbin hactive =>
    obtain ⟨slab, s', ptr, hslab, halloc, hready''⟩ :=
      hready'.serves_first hlayout hsize hbin hactive
    rw [heq]
    simp only [HeapSys.allocClass, hslab, halloc]
    exact .inl ⟨_, some ptr, _, rfl, hready''⟩
  | page heq hready' hempty hspent =>
    rw [heq]
    exact hready'.takePage hheap hrange hlayout hsize hempty

/-- `Heap::alloc` serves every request of at least one byte. -/
theorem Ready.alloc (hready : Ready s live lists roster handles) (hheap : h ∈ roster)
    (hsize : 1 ≤ layout.size) :
    Served (s.alloc h layout reply) reply layout live roster handles := by
  unfold HeapSys.alloc
  cases hlayout : classIndex layout with
  | some c => exact hready.allocClass hheap (classIndex_spec hsize hlayout).1 hlayout hsize
  | none =>
    cases halloc : s.pool.allocLargeToEnd layout.size layout.align reply with
    | none =>
      refine .inr ⟨rfl, ?_⟩
      rintro rfl
      simp [PagePool.allocLargeToEnd, PoolCore.osAllocLarge] at halloc
    | some taken =>
      obtain ⟨pool, result⟩ := taken
      cases result with
      | none => exact .inl ⟨_, none, lists, rfl, hready.inv.allocLarge_none halloc, hready.hand⟩
      | some ptr =>
        have hinv := hready.inv.allocLarge hlayout hsize halloc
        exact .inl ⟨_, some ptr, lists, rfl, hinv.count h _, hready.hand⟩

end ClMalloc
