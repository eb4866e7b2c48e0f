import ClMalloc.HeapMoves
import ClMalloc.PoolExhausted

/-!
# How far a request goes

A request recurses at most once, and then the slab made active serves it at once. It takes
a page only when no slab of the heap and no abandoned slab of the class has a slot for it,
and fails only when the pool has no page and gets no segment.
-/

namespace ClMalloc

open Intrusive Placement Transition

variable {s s' : HeapSys} {live : List Allocation} {lists lists' : SlabPlace → List ℕ}
  {roster handles : List ℕ} {busy : Option ℕ} {h c slab : ℕ} {layout : Layout} {reply : Option ℕ}

/-- A class index is in range, for every layout. -/
theorem classIndex_lt (hclass : classIndex layout = some c) : c < numClasses := by
  unfold classIndex at hclass
  simp only at hclass
  split at hclass
  · contradiction
  · rename_i hmax
    simp only [Option.some.injEq] at hclass
    rw [← hclass, classTable]
    refine (classIndexFromSize_fits (le_max_right _ _) ?_).1
    simp only [maxSlabSize, minSize] at hmax ⊢
    omega

/-- Taking a page does not run out of fuel. -/
theorem HeapSys.takePage_ne_outOfFuel (s : HeapSys) (h c : ℕ) (reply : Option ℕ) :
    s.takePage h c reply ≠ .error .outOfFuel := by
  unfold HeapSys.takePage
  split
  · simp
  · simp
  · split <;> simp

variable {r : HeapRun} {headers : ℕ → SlabHeader} {next : ℕ → Option ℕ} {links : Links ℕ QueueHead}
  {labels : List HeapLabel}

/-- The slab a request recurses for serves it on the first `Slab::alloc`. -/
def HeapSys.ServesFirst (s : HeapSys) (h c : ℕ) : Prop :=
  ∃ slab s' ptr, (s.heap h).bins c = some slab ∧ s.slabAlloc slab = (s', some ptr)

/-- Then the recursive call returns, whatever it would do otherwise. -/
theorem HeapSys.ServesFirst.allocWith (hserves : s.ServesFirst h c) :
    ∃ s' ptr, ∀ take again, s.allocWith take again h c = .ok (s', some ptr) := by
  obtain ⟨slab, s', ptr, hslab, halloc⟩ := hserves
  refine ⟨s'.count h (·.onAlloc c (classSize c)), ptr, fun take again => ?_⟩
  simp only [HeapSys.allocWith, hslab, halloc]

/-- In every reachable state a request of any layout ends; it recurses at most once, and then the
slab that was made active serves it at once. -/
theorem alloc_recurses_once (hrun : run heapStep (HeapRun.new headers next links) labels = some r)
    (hheap : h ∈ r.handles) (layout : Layout) (reply : Option ℕ) :
    r.sys.alloc h layout reply ≠ .error .outOfFuel ∧
      ∀ c, classIndex layout = some c →
        (∀ fuel, HeapSys.allocClass h c reply (fuel + 2) r.sys = r.sys.alloc h layout reply) ∧
        ((∃ outcome, ∀ again, r.sys.allocWith (HeapSys.takePage h c reply) again h c = outcome) ∨
          ∃ s', (∀ again, r.sys.allocWith (HeapSys.takePage h c reply) again h c = again s') ∧
            s'.ServesFirst h c) := by
  obtain ⟨lists, hready⟩ := heapRun_sound hrun
  have hpath (c : ℕ) (hclass : classIndex layout = some c) :=
    hready.allocWith hheap (classIndex_lt hclass)
    (classLayout_spec (classIndex_lt hclass)).2 (classLayout_spec (classIndex_lt hclass)).1
  have hfirst {c : ℕ} {s : HeapSys} {lists : SlabPlace → List ℕ}
      (hclass : classIndex layout = some c)
      (hready : Ready s r.live lists r.handles r.handles) (hbin : s.BinReady h c)
      (hactive : (s.heap h).bins c ≠ none) :
      s.ServesFirst h c := by
    obtain ⟨hsize, hlayout⟩ := classLayout_spec (classIndex_lt hclass)
    obtain ⟨slab, s', ptr, hslab, halloc, -⟩ := hready.serves_first hlayout hsize hbin hactive
    exact ⟨slab, s', ptr, hslab, halloc⟩
  have halloc {c : ℕ} (hclass : classIndex layout = some c) :
      r.sys.alloc h layout reply = HeapSys.allocClass h c reply 2 r.sys := by
    unfold HeapSys.alloc
    rw [hclass]
  constructor
  · cases hclass : classIndex layout with
    | none =>
      unfold HeapSys.alloc
      rw [hclass]
      simp only
      split <;> simp
    | some c =>
      rw [halloc hclass, HeapSys.allocClass_succ]
      cases hpath c hclass with
      | served heq => simp [heq]
      | recursed heq hready' hbin hactive =>
        obtain ⟨s', ptr, hserved⟩ := (hfirst hclass hready' hbin hactive).allocWith
        rw [heq, HeapSys.allocClass_succ, hserved]
        simp
      | page heq =>
        rw [heq]
        exact HeapSys.takePage_ne_outOfFuel _ h c reply
  · intro c hclass
    rw [halloc hclass]
    cases hpath c hclass with
    | served heq =>
      refine ⟨fun fuel => ?_, .inl ⟨_, fun again => heq _ again⟩⟩
      rw [HeapSys.allocClass_succ, HeapSys.allocClass_succ, heq, heq]
    | recursed heq hready' hbin hactive =>
      have hserves := hfirst hclass hready' hbin hactive
      obtain ⟨s', ptr, hserved⟩ := hserves.allocWith
      refine ⟨fun fuel => ?_, .inr ⟨_, fun again => heq _ again, hserves⟩⟩
      rw [HeapSys.allocClass_succ, HeapSys.allocClass_succ, heq, heq, HeapSys.allocClass_succ,
        HeapSys.allocClass_succ, hserved, hserved]
    | page heq =>
      refine ⟨fun fuel => ?_, .inl ⟨_, fun again => heq _ again⟩⟩
      rw [HeapSys.allocClass_succ, HeapSys.allocClass_succ, heq, heq]

/-- The request after `pendingRun` retires the active slab, finds one slab with a slot in the full
queue and recurses. -/
theorem alloc_recurses_once_pendingRun :
    ∃ r, run heapStep emptyHeaps pendingRun = some r ∧ 1 ∈ r.handles ∧
    returned (r.sys.alloc 1 halfSlab none) = some 0x1005000 ∧
      r.sys.alloc 1 halfSlab none ≠ .error .outOfFuel ∧
        ((∃ outcome, ∀ again, r.sys.allocWith (HeapSys.takePage 1 45 none) again 1 45 = outcome) ∨
          ∃ s', (∀ again, r.sys.allocWith (HeapSys.takePage 1 45 none) again 1 45 = again s') ∧
            s'.ServesFirst 1 45) := by
  have hcheck : (run heapStep emptyHeaps pendingRun).map (fun r => decide (1 ∈ r.handles ∧
      returned (r.sys.alloc 1 halfSlab none) = some 0x1005000)) = some true := by decide +kernel
  obtain ⟨r, hrun, hr⟩ := Option.map_eq_some_iff.mp hcheck
  obtain ⟨hheap, hptr⟩ := of_decide_eq_true hr
  obtain ⟨hends, hclasses⟩ := alloc_recurses_once hrun hheap halfSlab none
  exact ⟨r, hrun, hheap, hptr, hends, (hclasses 45 (by decide +kernel)).2⟩

/-- The slab cache's length field is right. -/
def PagePool.CacheCounted (pool : PagePool) : Prop := pool.slabCacheLen = pool.slabCache.length

/-- The operation caches or returns a slab that is fully free, and else changes neither the cache
nor the tables. -/
def Recycles (move : PagePool → ℕ × Bool → Option PagePool) : Prop :=
  ∀ pool slab pool', move pool slab = some pool' → pool.CacheCounted → pool'.CacheCounted ∧
    (slab.2 = true → pool'.slabCache ≠ []) ∧
    (slab.2 = false → pool'.slabCache = pool.slabCache ∧ SameTables pool.core.pool pool'.core.pool)

/-- After `cache_slab` the cache is not empty: the slab is in it, or it was full. -/
theorem PagePool.cacheSlabToEnd_nonempty {pool pool' : PagePool} (hcount : pool.CacheCounted)
    (hcache : pool.cacheSlabToEnd slab = some pool') :
    pool'.CacheCounted ∧ pool'.slabCache ≠ [] := by
  unfold PagePool.CacheCounted at hcount
  unfold PagePool.cacheSlabToEnd PagePool.cacheSlab at hcache
  split at hcache
  case isTrue hfull =>
    split at hcache <;> cases hcache
    refine ⟨hcount, fun hnil => ?_⟩
    change pool.slabCache = [] at hnil
    rw [hcount, hnil] at hfull
    simp [slabCacheMax] at hfull
  case isFalse =>
    cases hcache
    exact ⟨by simp [PagePool.CacheCounted, hcount], by simp⟩

/-- A scan recycles. -/
theorem recycles_recycle : Recycles PagePool.recycle := by
  intro pool slab pool' hmove hcount
  unfold PagePool.recycle at hmove
  split at hmove
  case isTrue hfull =>
    have hcached := PagePool.cacheSlabToEnd_nonempty hcount hmove
    exact ⟨hcached.1, fun _ => hcached.2, fun hfalse => by simp [hfull] at hfalse⟩
  case isFalse hfull =>
    cases hmove
    exact ⟨hcount, fun htrue => absurd htrue hfull, fun _ => ⟨rfl, .refl _⟩⟩

/-- An adoption recycles. -/
theorem recycles_readopt (c : ℕ) : Recycles (PagePool.readopt c) := by
  intro pool slab pool' hmove hcount
  obtain ⟨hcount', hcached, hkept⟩ := recycles_recycle
    (pool.incAdoptCount c) slab pool' hmove hcount
  refine ⟨hcount', hcached, fun hfalse => ?_⟩
  obtain ⟨hcache, htables⟩ := hkept hfalse
  exact ⟨hcache, htables.dirtyList, htables.cleanList, htables.segmentCursor, htables.segmentEnd,
    htables.carvingIdx, htables.segments, htables.segmentCount, htables.segOutstanding⟩

/-- Tables that stay the same twice are the same. -/
theorem SameTables.trans {st st₁ st₂ : PoolState} (h : SameTables st st₁)
    (h' : SameTables st₁ st₂) :
    SameTables st st₂ :=
  ⟨h'.dirtyList.trans h.dirtyList, h'.cleanList.trans h.cleanList,
    h'.segmentCursor.trans h.segmentCursor,
    h'.segmentEnd.trans h.segmentEnd, h'.carvingIdx.trans h.carvingIdx,
      h'.segments.trans h.segments,
    h'.segmentCount.trans h.segmentCount, h'.segOutstanding.trans h.segOutstanding⟩

/-- If the cache is empty after recycling, no slab was fully free and the tables are as before. -/
theorem Recycles.of_empty {move : PagePool → ℕ × Bool → Option PagePool} (hmove : Recycles move)
    {pool pool' : PagePool} {slabs : List (ℕ × Bool)} (hcount : pool.CacheCounted)
    (hrun : run move pool slabs = some pool') (hempty : pool'.slabCache = []) :
    pool'.CacheCounted ∧ pool.slabCache = [] ∧
      SameTables pool.core.pool pool'.core.pool ∧ ∀ slab ∈ slabs, slab.2 = false := by
  induction slabs generalizing pool with
  | nil =>
    cases hrun
    exact ⟨hcount, hempty, .refl _, by simp⟩
  | cons slab slabs ih =>
    obtain ⟨pool₁, hstep, hrest⟩ := run_cons_eq_some.mp hrun
    obtain ⟨hcount₁, hcached, hkept⟩ := hmove pool slab pool₁ hstep hcount
    obtain ⟨hcount', hempty₁, htables₁, hnone⟩ := ih hcount₁ hrest
    have hfalse : slab.2 = false := by
      by_contra hfull
      exact hcached (by simpa using hfull) hempty₁
    obtain ⟨hcache, htables⟩ := hkept hfalse
    refine ⟨hcount', by rw [← hcache]; exact hempty₁, htables.trans htables₁, fun p hp => ?_⟩
    rcases List.mem_cons.mp hp with rfl | hp
    · exact hfalse
    · exact hnone p hp

/-- `alloc_slab` finds no page only when none is free and it gets no segment. -/
theorem PoolCore.allocSlabToEnd_none {core core' : PoolCore} {t : ℕ}
    (halloc : core.allocSlabToEnd t reply = some (core', none)) :
    core.pool.NoFreePage ∧ (reply = none ∨ maxSegments ≤ core.pool.segmentCount) := by
  unfold PoolCore.allocSlabToEnd PoolCore.allocSlab at halloc
  cases hlocked : allocSlabLocked core.pool with
  | none => simp [hlocked] at halloc
  | some found =>
    obtain ⟨pool, page⟩ := found
    cases page with
    | some page => simp [hlocked] at halloc
    | none =>
      obtain ⟨hnone, htables⟩ := allocSlabLocked_none hlocked
      refine ⟨hnone, ?_⟩
      cases reply with
      | none => exact .inl rfl
      | some base =>
        refine .inr ?_
        simp only [hlocked, PoolCore.osAlloc] at halloc
        split at halloc
        case h_2 => contradiction
        case h_1 core₁ hmapped =>
          split at hmapped <;> try contradiction
          cases hmapped
          simp only [PoolCore.setCall, Function.update_self, PoolCore.allocSlabSlow] at halloc
          cases hslow : allocSlabSlowLocked pool base with
          | mk pool₁ page =>
            cases page with
            | some page => simp [hslow] at halloc
            | none =>
              rw [← htables.segmentCount]
              exact (allocSlabSlowLocked_none hslow).1

/-- The cache and the pool find no page only when they have none and get no segment. -/
theorem PagePool.takeSlab_none {pool pool' : PagePool}
    (htake : pool.takeSlab reply = some (pool', none)) :
    pool.slabCache = [] ∧ pool.core.pool.NoFreePage ∧
      (reply = none ∨ maxSegments ≤ pool.core.pool.segmentCount) := by
  unfold PagePool.takeSlab at htake
  split at htake
  case h_1 => cases htake
  case h_2 hcache =>
    refine ⟨hcache, ?_⟩
    split at htake <;> try contradiction
    case h_1 core result halloc =>
      cases htake
      exact PoolCore.allocSlabToEnd_none halloc

/-- `Heap::alloc` for a size class with the use of a page left open. -/
def HeapSys.allocOpen (take : HeapSys → Except HeapFault (HeapSys × Option ℕ)) (h c : ℕ)
    (s : HeapSys) :
    Except HeapFault (HeapSys × Option ℕ) :=
  s.allocWith take (fun s => s.allocWith take (fun _ => .error .outOfFuel) h c) h c

/-- `Heap::alloc` with the page filled in. -/
theorem HeapSys.alloc_eq_allocOpen (hclass : classIndex layout = some c) (s : HeapSys) (h : ℕ)
    (reply : Option ℕ) :
    s.alloc h layout reply = s.allocOpen (HeapSys.takePage h c reply) h c := by
  unfold HeapSys.alloc
  rw [hclass]
  rfl

/-- In `s` no slab of the heap or abandoned slab of the class has a slot to offer, other than those
that are fully free, which are recycled on the way to `s'`. -/
structure HeapSys.SlotsSpent (h c : ℕ) (s s' : HeapSys) (queues : QueueHead → List ℕ) : Prop where
  active : ∀ p, (s.heap h).bins c = some p → s.freeTotal p = 0
  part : queues ⟨h, .part, c⟩ = []
  full : ∀ p ∈ queues ⟨h, .full, c⟩, s.freeTotal p = 0 ∨ s.freeTotal p = (s.headers p).slotCount
  abandoned : ∀ p ∈ s.pool.abandoned c, s.freeTotal p = 0 ∨ s.freeTotal p = (s.headers p).slotCount
  recycled : ∃ pool, run PagePool.cacheSlabToEnd s.pool ((queues ⟨h, .full, c⟩).filter s.allFree) =
    some pool ∧ run (PagePool.readopt c) (pool.adoptAll 0 c)
      ((s.pool.abandoned c).map fun p => (p, s.allFree p)) = some s'.pool

/-- In `s` there is neither a slot nor a page nor a segment to be had, and the live allocations are
kept to `s'`. -/
structure HeapSys.OutOfMemory (h c : ℕ) (reply : Option ℕ) (live : List Allocation) (s s' : HeapSys)
    (queues : QueueHead → List ℕ) : Prop where
  active : ∀ p, (s.heap h).bins c = some p → s.freeTotal p = 0
  part : queues ⟨h, .part, c⟩ = []
  full : ∀ p ∈ queues ⟨h, .full, c⟩, s.freeTotal p = 0
  abandoned : ∀ p ∈ s.pool.abandoned c, s.freeTotal p = 0
  cache : s.pool.slabCache = []
  pages : s.pool.core.pool.NoFreePage
  segment : reply = none ∨ s.pool.core.pool.segmentCount = maxSegments
  located : ∀ a ∈ live, s'.Located a
  kept : s.Keeps s' live

/-- A slab that is not partly free has no slot free, or all. -/
theorem freeTotal_of_partFree (hpart : s.partFree slab = false) :
    s.freeTotal slab = 0 ∨ s.freeTotal slab = (s.headers slab).slotCount := by
  rw [HeapSys.partFree, HeapSys.allFree, HeapSys.noneFree, Bool.and_eq_false_iff] at hpart
  rcases hpart with hall | hnone
  · exact .inr (by simpa using hall)
  · exact .inl (by simpa using hnone)

/-- What is spent, in terms of the queues. -/
theorem Spent.slotsSpent (hspent : Spent h c live lists s s')
    (hinv : HeapInv s live lists roster handles busy) :
    s.SlotsSpent h c s' fun head => lists (.queue head) := by
  have hactive (p : ℕ) (hp : (s.heap h).bins c = some p) : s.noneFree p = true :=
    hspent.active p (hinv.mem_bin.mpr hp)
  refine ⟨fun p hp => by simpa [HeapSys.noneFree] using hactive p hp, hspent.part,
    fun p hp => freeTotal_of_partFree (hspent.full p hp),
      fun p hp => freeTotal_of_partFree (hspent.abandoned p hp), ?_⟩
  obtain ⟨pool, hscan, hadopt⟩ := hspent.recycled
  refine ⟨pool, ?_, hadopt⟩
  have hbin : (lists (.bin h c)).filter s.allFree = [] := by
    rw [List.filter_eq_nil_iff]
    intro p hp hall
    have hnone := hspent.active p hp
    rcases hinv.kinds (hinv.held hp) with hkinds | hkinds | hkinds
    · simp [hkinds.2.2] at hnone
    · simp [hkinds.1] at hall
    · simp [hkinds.1] at hall
  rw [run_recycle, List.filter_append, hbin, List.nil_append] at hscan
  exact hscan

/-- A page for a slab has a slot to hand out, so taking one fails only without a page. -/
theorem HeapInv.takePage_none (hinv : HeapInv s live lists roster handles none)
    (hhand : lists .hand = []) (htake : s.takePage h c reply = .ok (s', none)) :
    ∃ pool, s.pool.takeSlab reply = some (pool, none) ∧ s' = { s with pool := pool } := by
  unfold HeapSys.takePage at htake
  split at htake
  case h_1 => contradiction
  case h_2 pool hpool =>
    cases htake
    exact ⟨pool, hpool, rfl⟩
  case h_3 pool page hpool =>
    have hinit := hinv.takeSlab hhand hpool c (s.heap h).id
    have hpage : page ∈ withHand lists [page] .hand := by simp
    split at htake
    case h_1 => cases htake
    case h_2 s₁ halloc =>
      have hzero := hinit.freeCount_of_slabAlloc (hinit.held hpage) (congrArg Prod.snd halloc)
      have hpos := (hinit.slabs page (hinit.held hpage)).slotCount_pos
      have hheader : (HeapSys.slabInit { s with pool := pool } page c (s.heap h).id).headers page =
          SlabHeader.init c (s.heap h).id := by simp [HeapSys.slabInit]
      have hfresh : (SlabHeader.init c (s.heap h).id).freeCount =
          (SlabHeader.init c (s.heap h).id).slotCount := by
        simp [SlabHeader.freeCount, SlabHeader.init, SlotFreeList.empty, u16]
      rw [hheader, hfresh] at hzero
      rw [hheader] at hpos
      omega

/-- A request that took the last way and got no page found nothing anywhere. -/
theorem Spent.outOfMemory {s₁ : HeapSys} (hspent : Spent h c live lists s s₁)
    (hready : Ready s live lists roster handles) (hready₁ : Ready s₁ live lists' roster handles)
    (htake : s₁.takePage h c reply = .ok (s', none)) :
    s.OutOfMemory h c reply live s' fun head => lists (.queue head) := by
  have hinv := hready.inv
  have hslots := hspent.slotsSpent hinv
  obtain ⟨pool, hnone, rfl⟩ := hready₁.inv.takePage_none hready₁.hand htake
  obtain ⟨hcache₁, hpages₁, hsegment₁⟩ := PagePool.takeSlab_none hnone
  obtain ⟨pool₁, hscan, hadopt⟩ := hspent.recycled
  obtain ⟨kind, hpoolInv⟩ := hinv.quiet.inv
  have hcount : s.pool.CacheCounted := hpoolInv.cacheLen
  -- The cache is empty at the end, so neither the scan nor the adoption recycled a slab.
  have hcount₁ : pool₁.CacheCounted :=
    run_invariant (fun p slab p' hp hstep => (recycles_recycle p slab p' hstep hp).1) hcount hscan
  have hcount₂ : (pool₁.adoptAll 0 c).CacheCounted := hcount₁
  obtain ⟨-, hcache, htables₁, hadopted⟩ := (recycles_readopt c).of_empty hcount₂ hadopt hcache₁
  obtain ⟨-, hcache₀, htables₀, hscanned⟩ := recycles_recycle.of_empty hcount hscan hcache
  have htables : SameTables s.pool.core.pool s₁.pool.core.pool := htables₀.trans htables₁
  have hpartly {p : ℕ} (hall : s.allFree p = false) (hpart : s.partFree p = false) :
      s.freeTotal p = 0 := by
    rcases freeTotal_of_partFree hpart with hzero | hfull
    · exact hzero
    · simp [HeapSys.allFree, hfull] at hall
  constructor
  case active => exact hslots.active
  case part => exact hslots.part
  case full =>
    intro p hp
    refine hpartly ?_ (hspent.full p hp)
    exact hscanned (p, s.allFree p) (List.mem_map.mpr ⟨p, List.mem_append_right _ hp, rfl⟩)
  case abandoned =>
    intro p hp
    refine hpartly ?_ (hspent.abandoned p hp)
    exact hadopted (p, s.allFree p) (List.mem_map.mpr ⟨p, hp, rfl⟩)
  case cache => exact hcache₀
  case pages =>
    obtain ⟨hdirty, hclean, huncarved⟩ := hpages₁
    exact ⟨by rw [← htables.dirtyList]; exact hdirty, by rw [← htables.cleanList]; exact hclean,
      by rw [← htables.segmentCursor, ← htables.segmentEnd]; exact huncarved⟩
  case segment =>
    refine hsegment₁.imp_right fun hfull => le_antisymm hpoolInv.core.pool.count_le ?_
    rw [← htables.segmentCount]
    exact hfull
  case located =>
    intro a ha
    exact (hready₁.inv.takeSlab_none hnone).located ha
  case kept =>
    intro a ha hclass
    exact hspent.keeps a ha hclass

/-- In every reachable state a request of a slab class takes a page only when no slab has a slot for
it, and fails only when there is no page and no segment either. -/
theorem alloc_takes_page_last (hrun : run heapStep (HeapRun.new headers next links) labels = some r)
    (hheap : h ∈ r.handles) (hclass : classIndex layout = some c) (reply : Option ℕ) :
    ∃ queues, (∀ head, DList r.sys.links (.head head) (queues head)) ∧
      r.sys.alloc h layout reply = r.sys.allocOpen (HeapSys.takePage h c reply) h c ∧
      ((∃ outcome, ∀ take, r.sys.allocOpen take h c = outcome) ∨
        ∃ s, (∀ take, r.sys.allocOpen take h c = take s) ∧ r.sys.SlotsSpent h c s queues) ∧
      ∀ sys, r.sys.alloc h layout reply = .ok (sys, none) →
        r.sys.OutOfMemory h c reply r.live sys queues := by
  obtain ⟨lists, hready⟩ := heapRun_sound hrun
  have hrange := classIndex_lt hclass
  obtain ⟨hsize, hlayout⟩ := classLayout_spec hrange
  have halloc := r.sys.alloc_eq_allocOpen hclass h reply
  refine ⟨_, hready.inv.linked, halloc, ?_⟩
  cases hready.allocWith hheap hrange hlayout hsize with
  | served heq =>
    have hopen (take : HeapSys → Except HeapFault (HeapSys × Option ℕ)) := heq take
      fun s => s.allocWith take (fun _ => .error .outOfFuel) h c
    refine ⟨.inl ⟨_, hopen⟩, fun sys hnone => ?_⟩
    rw [halloc, HeapSys.allocOpen, hopen] at hnone
    cases hnone
  | recursed heq hready' hbin hactive =>
    obtain ⟨slab, s', ptr, hslab, hfirst, -⟩ := hready'.serves_first hlayout hsize hbin hactive
    obtain ⟨s'', ptr', hserved⟩ := HeapSys.ServesFirst.allocWith ⟨slab, s', ptr, hslab, hfirst⟩
    have hopen (take : HeapSys → Except HeapFault (HeapSys × Option ℕ)) :
        r.sys.allocOpen take h c = .ok (s'', some ptr') := by rw [HeapSys.allocOpen, heq, hserved]
    refine ⟨.inl ⟨_, hopen⟩, fun sys hnone => ?_⟩
    rw [halloc, hopen] at hnone
    cases hnone
  | page heq hready' _ hspent =>
    have hopen (take : HeapSys → Except HeapFault (HeapSys × Option ℕ)) := heq take
      fun s => s.allocWith take (fun _ => .error .outOfFuel) h c
    refine ⟨.inr ⟨_, hopen, hspent.slotsSpent hready.inv⟩, fun sys hnone => ?_⟩
    rw [halloc, HeapSys.allocOpen, hopen] at hnone
    exact hspent.outOfMemory hready hready' hnone

/-- Heaps 1 and 2 fill the 32 slabs of a segment with allocations, and heap 2 ends. -/
def spentRun : List HeapLabel :=
  [.newHeap 1, .newHeap 2, .newHeap 3, .alloc 1 halfSlab (some 0x1000000)] ++
    List.replicate 39 (.alloc 1 halfSlab none) ++
    List.replicate 24 (.alloc 2 halfSlab none) ++ [.dropHeap 2]

/-- Heap 3 then frees both allocations of the slab heap 1 filled first. -/
def spentSlabFreedRun : List HeapLabel :=
  spentRun ++ [.dealloc 3 ⟨0x1005000, halfSlab⟩, .dealloc 3 ⟨0x100a000, halfSlab⟩]

/-- The use of a page that hands out this pointer. -/
def takeAs (result : Option ℕ) (s : HeapSys) :
    Except HeapFault (HeapSys × Option ℕ) := .ok (s, result)

/-- An allocation that ended without a pointer. -/
theorem exists_of_toOption {outcome : Except HeapFault (HeapSys × Option ℕ)} {result : Option ℕ}
    (h : outcome.toOption.map Prod.snd = some result) : ∃ sys, outcome = .ok (sys, result) := by
  cases outcome with
  | error fault => cases h
  | ok value =>
    obtain ⟨sys, result'⟩ := value
    cases h
    exact ⟨sys, rfl⟩

/-- With 64 live allocations in an active slab, in full queues and on twelve abandoned slabs, a
request of heap 1 fails when the page allocator refuses; once a slab of its full queue is freed, a
page is taken after that slab is recycled. -/
theorem alloc_takes_page_last_spentRun : ∃ r r' sys queues queues' s,
    run heapStep emptyHeaps spentRun = some r ∧ r.live.length = 64 ∧
      (r.sys.pool.abandoned 45).length = 12 ∧
    ((r.sys.heap 1).bins 45).isSome = true ∧ (r.sys.links.head ⟨1, .full, 45⟩).isSome = true ∧
    r.sys.alloc 1 halfSlab none = .ok (sys, none) ∧ r.sys.OutOfMemory 1 45 none r.live sys queues ∧
    run heapStep emptyHeaps spentSlabFreedRun = some r' ∧ r'.sys.SlotsSpent 1 45 s queues' := by
  have hcheck : (run heapStep emptyHeaps spentRun).map
      (fun r => decide (1 ∈ r.handles ∧ r.live.length = 64 ∧
      (r.sys.pool.abandoned 45).length = 12 ∧ ((r.sys.heap 1).bins 45).isSome = true ∧
      (r.sys.links.head ⟨1, .full, 45⟩).isSome = true ∧
      (r.sys.alloc 1 halfSlab none).toOption.map Prod.snd =
        some none)) = some true := by decide +kernel
  have hcheck' : (run heapStep emptyHeaps spentSlabFreedRun).map (fun r => decide (1 ∈ r.handles ∧
      returned (r.sys.allocOpen (takeAs (some 7)) 1 45) = some 7 ∧
      returned (r.sys.allocOpen (takeAs none) 1 45) = none)) = some true := by decide +kernel
  have hclass : classIndex halfSlab = some 45 := by decide +kernel
  obtain ⟨r, hrun, hr⟩ := Option.map_eq_some_iff.mp hcheck
  obtain ⟨hheap, hlive, habandoned, hactive, hfull, hnone⟩ := of_decide_eq_true hr
  obtain ⟨r', hrun', hr'⟩ := Option.map_eq_some_iff.mp hcheck'
  obtain ⟨hheap', hsome, hnone'⟩ := of_decide_eq_true hr'
  obtain ⟨sys, halloc⟩ := exists_of_toOption hnone
  obtain ⟨queues, -, -, -, hmemory⟩ := alloc_takes_page_last hrun hheap hclass none
  obtain ⟨queues', -, -, houtcome | ⟨s, -, hspent⟩, -⟩ :=
    alloc_takes_page_last hrun' hheap' hclass none
  · obtain ⟨outcome, houtcome⟩ := houtcome
    rw [houtcome] at hsome hnone'
    rw [hsome] at hnone'
    cases hnone'
  · exact ⟨r, r', sys, queues, queues', s, hrun, hlive, habandoned, hactive, hfull, halloc,
      hmemory sys halloc, hrun', hspent⟩

end ClMalloc
