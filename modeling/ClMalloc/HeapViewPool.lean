import ClMalloc.HeapViewSlots

/-!
# Slabs and regions pass between the pool and the threads

`cache_slab` and `abandon_slab` take a slab out of the hands of a heap, `adopt_all` and the
allocation of a slab put slabs in, large allocations come and go. A heap that adopts a slab
writes its id and clears the links.
-/

namespace ClMalloc

open Threads Intrusive Placement

variable {s s' : HeapSys} {ctx : HeapContext} {views : ℕ → HeapView}
  {lists lists' : SlabPlace → List ℕ} {roster : List ℕ} {allocs allocs' : List Allocation}
  {busy busy' : Option ℕ} {h h' c slab page p ptr : ℕ} {v v' : HeapView} {a : Allocation}
  {layout : Layout} {pool : PagePool} {hand : List ℕ}

/-- A view that differs in what is in hand has no more of the other places. -/
theorem HeapView.Has.of_hand (hhas : v'.Has p) (hbins : v'.bins = v.bins)
    (hqueues : v'.queues = v.queues) :
    v.Has p ∨ p ∈ v'.hand := by
  rcases hhas with ⟨c, hbin⟩ | ⟨queue, c, hqueue⟩ | hin
  · exact .inl (.inl ⟨c, by rw [← hbins, hbin]⟩)
  · exact .inl (.inr (.inl ⟨queue, c, by rwa [← hqueues]⟩))
  · exact .inr hin

/-- A view with fewer slabs in hand is as right. -/
theorem HeapView.Sees.release (hsees : v.Sees h s lists) (slab : ℕ) :
    (v.release slab).Sees h s lists where
  id := hsees.id
  bins := hsees.bins
  queues := hsees.queues
  header := fun p hp => by
    rcases hp.of_hand (v := v) rfl rfl with hhas | hin
    · exact hsees.header p hhas
    · exact hsees.header p (.inr (.inr (List.mem_of_mem_erase hin)))
  links := fun p hp => hsees.links p (List.mem_of_mem_erase hp)

/-- The hand does not matter to what a view sees in the queues. -/
theorem HeapView.Sees.withHand (hsees : v.Sees h s lists) (hand : List ℕ) :
    v.Sees h s (withHand lists hand) :=
  { hsees with queues := fun queue c => by rw [withHand_queue]; exact hsees.queues queue c }

/-- The pool is not looked at. -/
theorem HeapView.Sees.repool (hsees : v.Sees h s lists) (pool : PagePool) :
    v.Sees h { s with pool := pool } lists :=
  { hsees with }

/-- The pool changes beneath the heaps: slabs in hand come or go, or large allocations do. -/
theorem HeapSys.Agrees.repool
    (hagrees : s.Agrees ctx (Function.update views h v) lists roster allocs none)
    (hinv : HeapInv { s with pool := pool } allocs' (withHand lists hand) roster ctx.handles none)
    (hheld : ∀ p, pool.Held p → s.pool.Held p)
    (hsees : v'.Sees h { s with pool := pool } (withHand lists hand)) (hphase : v'.phase = v.phase)
    (hhands : Divided hand (Function.update (fun h' => (views h').hand) h v'.hand))
    (hcarried : ∀ p ∈ v'.hand, s.Carried ctx.handles h p)
    (howned : Divided allocs' (Function.update (ctx.owned views) (some h) v'.pending))
    (hcounts : ∀ p, allocs'.countP (fun a => a.ServedFrom p) = allocs.countP fun a =>
      a.ServedFrom p) :
    HeapSys.Agrees { s with pool := pool } ctx (Function.update views h v')
      (withHand lists hand) roster allocs' none := by
  refine hagrees.act hinv hsees hphase ⟨fun _ => rfl, fun _ _ => rfl,
    fun head _ => withHand_queue hand head,
    fun _ _ _ => ⟨rfl, rfl, rfl⟩, rfl⟩ (by rwa [withHand_hand])
    (fun p hp => (hcarried p hp).congr rfl (fun _ => rfl) rfl) howned (fun p hp => ?_) fun _ _ _ =>
    rfl
  rw [hcounts]
  exact hagrees.balanced p (hheld p hp)

/-- `cache_slab` takes a fully free slab out of hand. -/
theorem HeapSys.Agrees.cacheSlab
    (hagrees : s.Agrees ctx (Function.update views h v) lists roster allocs none)
    (hslab : slab ∈ v.hand) (hfree : (v.header slab).isFullyFree = true) :
    ∃ pool lists', s.cacheSlab slab = .ok { s with pool := pool } ∧
      HeapSys.Agrees { s with pool := pool } ctx
        (Function.update views h (v.release slab)) lists' roster allocs none := by
  have hmem := hagrees.mem_hand hslab
  have hfree' : (s.headers slab).isFullyFree = true := by
    rw [← hagrees.own.header slab (.inr (.inr hslab))] at hfree
    exact hfree
  obtain ⟨pool, hcache, hinv⟩ := hagrees.inv.cacheSlab hmem hfree'
  obtain ⟨pool', hcache', -, hinUse, habandoned, -⟩ :=
    hagrees.inv.quiet.cacheSlab (hagrees.has_inUse (.inr (.inr hslab)))
  have hsame : pool' = pool := by
    simp only [HeapSys.cacheSlab, hcache', Except.ok.injEq] at hcache
    exact congrArg HeapSys.pool hcache
  subst hsame
  refine ⟨pool', _, hcache, hagrees.repool hinv (fun p hp => ?_)
    (((hagrees.own.release slab).repool pool').withHand _)
    rfl (hagrees.divided.erase (hagrees.inv.separate.nodup .hand) hslab)
    (fun p hp => hagrees.carries (List.mem_of_mem_erase hp)) hagrees.shared fun _ => rfl⟩
  rw [PagePool.Held, hinUse, habandoned] at hp
  exact hp.imp List.mem_of_mem_erase id

/-- `adopt_all` puts the abandoned slabs of a class in hand. -/
theorem HeapSys.Agrees.adoptAll
    (hagrees : s.Agrees ctx (Function.update views h v) lists roster allocs none)
    (hclass : c < numClasses) :
    ∃ v' lists', HeapSys.Agrees { s with
      pool := s.pool.adoptAll 0 c } ctx (Function.update views h v') lists' roster
        allocs none ∧
      v'.phase = v.phase ∧ v'.bins = v.bins ∧ v'.pending = v.pending ∧
        v'.hand = s.pool.abandoned c ++ v.hand ∧
      Chain v'.next (s.pool.abandoned c).head? (s.pool.abandoned c) ∧
      ∀ p ∈ s.pool.abandoned c, (v'.header p).sizeClassIndex = c := by
  have hown := hagrees.own
  obtain ⟨-, hinUse⟩ := hagrees.inv.quiet.adoptAll hclass
  have hnew : (s.pool.abandoned c).Disjoint (lists .hand) := fun p hp hin =>
    hagrees.inv.notMem_abandoned hin c hp
  let v' : HeapView :=
    { v with
      hand := s.pool.abandoned c ++ v.hand
      header := fun p => (s.headers p).ownPart
      next := s.links.next
      prev := s.links.prev }
  refine ⟨v', withHand lists (s.pool.abandoned c ++ lists .hand), ?_, rfl, rfl, rfl, rfl,
    hagrees.inv.abandoned c, fun p hp => (hagrees.inv.orphans c p hp).classIdx⟩
  refine hagrees.repool (hagrees.inv.adoptAllOnto hclass) (fun p hp => ?_)
    ⟨hown.id, hown.bins, fun queue c => (withHand_queue _ _).trans (hown.queues queue c),
      fun _ _ => rfl, fun _ _ => ⟨rfl, rfl⟩⟩ rfl (hagrees.divided.append
        (hagrees.inv.quiet.lists_apart.2.1 c) hnew) (fun p hp => ?_)
    hagrees.shared fun _ => rfl
  · rcases hp with hp | ⟨c', hp⟩
    · rw [hinUse, List.mem_append] at hp
      exact hp.elim (fun hin => .inr ⟨c, hin⟩) .inl
    · have hsub : (s.pool.adoptAll 0 c).abandoned c' = if c' = c then []
          else s.pool.abandoned c' := by
        by_cases hc : c' = c
        · subst hc
          simp [PagePool.adoptAll]
        · simp [PagePool.adoptAll, hc]
      rw [hsub] at hp
      split at hp
      · simp at hp
      · exact .inr ⟨c', hp⟩
  · rcases List.mem_append.mp hp with hin | hin
    · have horphan := hagrees.inv.orphans c p hin
      exact ⟨by rw [horphan.classIdx]; exact horphan.range, horphan.old,
        fun h' hh' _ => horphan.noHeap h' hh'⟩
    · exact hagrees.carries hin

/-- `abandon_slab` takes a slab out of the hands of a heap that is not live. -/
theorem HeapSys.Agrees.abandonSlab
    (hagrees : s.Agrees ctx (Function.update views h v) lists roster allocs none)
    (hslab : slab ∈ v.hand) (hphase : v.phase ≠ .alive) :
    ∃ lists', (s.abandonSlab slab).Agrees ctx
      (Function.update views h (v.release slab)) lists' roster allocs none := by
  have hown := hagrees.own
  have hcarried := hagrees.carries hslab
  have hgone : h ∉ ctx.handles := by
    rw [hagrees.handles, Function.update_self]
    exact hphase
  have horphan : s.Orphan ctx.handles (s.headers slab).sizeClassIndex slab :=
    ⟨hcarried.range, rfl, hcarried.old,
      fun h' hh' => hcarried.others h' hh' fun heq => hgone (heq ▸ hh')⟩
  have hinUse := hagrees.has_inUse (.inr (.inr hslab))
  have hlinks (p : ℕ) (hp : p ≠ slab) : (s.abandonSlab slab).links.next p = s.links.next p ∧
      (s.abandonSlab slab).links.prev p = s.links.prev p := by
    simp [HeapSys.abandonSlab, Links.setNext, Links.write, hp]
  refine ⟨_, hagrees.act (hagrees.inv.abandonSlab (hagrees.mem_hand hslab) horphan)
    ⟨hown.id, hown.bins, fun queue c => (withHand_queue _ _).trans (hown.queues queue c),
      fun p hp => ?_, fun p hp => ?_⟩
    rfl ⟨fun _ => rfl, fun _ _ => rfl, fun head _ => withHand_queue _ head,
      fun p _ hnot => ⟨rfl, hlinks p ?_⟩, rfl⟩ ?_
    (fun p hp => (hagrees.carries (List.mem_of_mem_erase hp)).congr rfl
      (fun _ => rfl) rfl) hagrees.shared
    (fun p hp => ?_) fun _ _ _ => rfl⟩
  · exact (hown.release slab).header p hp
  · obtain ⟨hne, hin⟩ := hagrees.divided.nodup.mem_erase_iff.mp hp
    rw [(hlinks p hne).1, (hlinks p hne).2]
    exact hown.links p hin
  · rintro rfl
    exact hnot (.inr (.inr hslab))
  · rw [withHand_hand]
    exact hagrees.divided.erase (hagrees.inv.separate.nodup .hand) hslab
  · exact hagrees.balanced p ((hagrees.inv.quiet.held_abandonSlab hinUse horphan.range).mp hp)

/-- A heap that takes over a slab in hand writes its id and clears the links. -/
theorem HeapSys.Agrees.claim
    (hagrees : s.Agrees ctx (Function.update views h v) lists roster allocs none)
    (hslab : slab ∈ v.hand) (hphase : v.phase ≠ .gone) :
    (s.claim h slab).Agrees ctx (Function.update views h
      { v.learn slab { v.header slab with heapId := v.id } with
        next := Function.update v.next slab none
        prev := Function.update v.prev slab none }) lists roster allocs none := by
  have hown := hagrees.own
  have hheader := hown.header slab (.inr (.inr hslab))
  have hother (p : ℕ) (hp : p ≠ slab) : (s.claim h slab).headers p = s.headers p ∧
      (s.claim h slab).links.next p = s.links.next p ∧
        (s.claim h slab).links.prev p = s.links.prev p := by
    simp [HeapSys.claim, Links.setNext, Links.setPrev, Links.write, hp]
  have hself : ((s.claim h slab).headers slab).ownPart =
      SlabHeader.ownPart { v.header slab with heapId := v.id } := by
    rw [← hheader, ← hown.id]
    simp [HeapSys.claim, SlabHeader.ownPart]
  refine hagrees.act (hagrees.inv.claim (hagrees.mem_hand hslab) h) ⟨hown.id, hown.bins,
    hown.queues, fun p hp => ?_,
    fun p hp => ?_⟩ rfl ⟨fun _ => rfl, fun _ _ => rfl, fun _ _ => rfl, fun p _ hnot => ?_,
      rfl⟩ hagrees.divided
    (fun p hp => ?_) hagrees.shared (fun p hp => ?_) fun _ _ _ => rfl
  · by_cases hps : p = slab
    · subst hps
      simpa [HeapView.learn] using hself
    · rw [(hother p hps).1]
      simpa [HeapView.learn, hps] using hown.header p hp
  · by_cases hps : p = slab
    · subst hps
      simpa using s.claim_links h p
    · rw [(hother p hps).2.1, (hother p hps).2.2]
      simpa [hps] using hown.links p hp
  · have hne : p ≠ slab := by
      rintro rfl
      exact hnot (.inr (.inr hslab))
    exact ⟨congrArg _ (hother p hne).1, (hother p hne).2⟩
  · have hcarried := hagrees.carries hp
    by_cases hps : p = slab
    · subst hps
      have hroster : h ∈ roster := (hagrees.roster h).mpr (by rwa [Function.update_self])
      refine ⟨by simpa [HeapSys.claim] using hcarried.range, ?_, fun h' hh' hne heq => ?_⟩
      · simpa [HeapSys.claim] using hagrees.inv.ids h hroster
      · have hsame : (s.heap h).id = (s.heap h').id := by simpa [HeapSys.claim] using heq
        exact hne (hagrees.inv.idsDiffer h hroster h' (hagrees.inv.alive h' hh') hsame).symm
    · exact hcarried.congr (congrArg _ (hother p hps).1) (fun _ => rfl) rfl
  · have hbalance := hagrees.balanced p hp
    by_cases hps : p = slab
    · subst hps
      simp only [HeapSys.freeTotal, HeapSys.claim, Function.update_self]
      exact hbalance
    · simpa [HeapSys.freeTotal, HeapSys.claim, hps] using hbalance

/-- A new slab has all its slots free. -/
theorem SlabHeader.init_free (c id : ℕ) :
    (SlabHeader.init c id).freeCount = (SlabHeader.init c id).slotCount ∧
      0 < (SlabHeader.init c id).slotCount := by
  have hpos := (slab_geometry c).2.2.2.2.1
  have hlt := (slabSlots_length 0 c).2
  have hmod : u16 (slotCountOf (classSize c)) = slotCountOf (classSize c) := Nat.mod_eq_of_lt hlt
  have hcount : (SlabHeader.init c id).slotCount = slotCountOf (classSize c) := hmod
  refine ⟨?_, by rwa [hcount]⟩
  change u16 (0 + u16 (slotCountOf (classSize c))) = u16 (slotCountOf (classSize c))
  rw [Nat.zero_add, hmod, hmod]

/-- A page of the pool, initialised for the heap, comes in hand. -/
theorem HeapSys.Agrees.takeSlab
    (hagrees : s.Agrees ctx (Function.update views h v) lists roster allocs none)
    (hphase : v.phase ≠ .gone) (hgives : s.pool.Gives pool (some page)) (hclass : c < numClasses) :
    (HeapSys.slabInit { s with pool := pool } page c v.id).Agrees ctx
      (Function.update views h ((v.learn page (SlabHeader.init c v.id)).grab page))
      (withHand lists (page :: lists .hand))
      roster allocs none := by
  have hown := hagrees.own
  have hinv := hagrees.inv.takeSlabOnto hgives c v.id
  obtain ⟨hquiet, hinUse, habandoned, -⟩ := hgives
  rw [Option.toList_some, List.singleton_append] at hinUse
  obtain ⟨hnodup, -, happart, -⟩ := hquiet.lists_apart
  rw [hinUse, List.nodup_cons] at hnodup
  have hnotHeld : ¬s.pool.Held page := by
    rintro (hin | ⟨c', hin⟩)
    · exact hnodup.1 hin
    · refine happart c' (show page ∈ pool.inUse from ?_) (by rwa [habandoned])
      simp [hinUse]
  have hnew : page ∉ lists .hand := fun hin => hnotHeld (hagrees.inv.held hin)
  have hne {p : ℕ} (hp : v.Has p) : p ≠ page := by
    rintro rfl
    exact hnotHeld (.inl (hagrees.has_inUse hp))
  have hother (p : ℕ) (hp : p ≠ page) :
      (HeapSys.slabInit { s with pool := pool } page c v.id).headers p = s.headers p ∧
      (HeapSys.slabInit { s with pool := pool } page c v.id).links.next p = s.links.next p ∧
      (HeapSys.slabInit { s with pool := pool } page c v.id).links.prev p = s.links.prev p := by
    simp [HeapSys.slabInit, Links.setNext, Links.setPrev, Links.write, hp]
  have hself : (HeapSys.slabInit { s with pool := pool } page c v.id).headers page =
    SlabHeader.init c v.id ∧
      (HeapSys.slabInit { s with pool := pool } page c v.id).links.next page = none ∧
      (HeapSys.slabInit { s with pool := pool } page c v.id).links.prev page = none := by
    simp [HeapSys.slabInit, Links.setNext, Links.setPrev, Links.write]
  have hroster : h ∈ roster := (hagrees.roster h).mpr (by rwa [Function.update_self])
  refine hagrees.act hinv ⟨hown.id, hown.bins,
    fun queue c => (withHand_queue _ _).trans (hown.queues queue c),
    fun p hp => ?_, fun p hp => ?_⟩ rfl ⟨fun _ => rfl, fun _ _ => rfl,
      fun head _ => withHand_queue _ head,
    fun p hp _ => ?_, rfl⟩ ?_ (fun p hp => ?_) hagrees.shared (fun p hp => ?_) fun _ _ _ => rfl
  · by_cases hps : p = page
    · subst hps
      rw [hself.1]
      simp [HeapView.learn, HeapView.grab]
    · rw [(hother p hps).1]
      have hhas : v.Has p := by
        rcases hp.of_hand (v := v) rfl rfl with hhas | hin
        · exact hhas
        · exact .inr (.inr ((List.mem_cons.mp hin).resolve_left hps))
      simpa [HeapView.learn, HeapView.grab, hps] using hown.header p hhas
  · rcases List.mem_cons.mp hp with heq | hin
    · rw [heq, hself.2.1, hself.2.2]
      simp [HeapView.grab, HeapView.learn]
    · have hps : p ≠ page := hne (.inr (.inr hin))
      rw [(hother p hps).2.1, (hother p hps).2.2]
      simpa [HeapView.grab, HeapView.learn, hps] using hown.links p hin
  · have hps : p ≠ page := by
      rintro rfl
      exact hnotHeld (.inl hp)
    exact ⟨congrArg _ (hother p hps).1, (hother p hps).2⟩
  · rw [withHand_hand]
    exact hagrees.divided.cons hnew
  · rcases List.mem_cons.mp hp with heq | hin
    · subst heq
      refine ⟨by rw [hself.1]; exact hclass, ?_, fun h' hh' hdiffer heq => ?_⟩
      · rw [hself.1]
        change v.id < s.nextHeapId
        rw [← hown.id]
        exact hagrees.inv.ids h hroster
      · rw [hself.1] at heq
        change v.id = (s.heap h').id at heq
        rw [← hown.id] at heq
        exact hdiffer (hagrees.inv.idsDiffer h hroster h' (hagrees.inv.alive h' hh') heq).symm
    · exact (hagrees.carries hin).congr (congrArg _ (hother p (hne (.inr (.inr hin)))).1)
        (fun _ => rfl) rfl
  · by_cases hps : p = page
    · subst hps
      have hserved : allocs.countP (fun a => a.ServedFrom p) = 0 := by
        rw [List.countP_eq_zero]
        intro a ha hserved
        obtain ⟨hsome, hmask⟩ := of_decide_eq_true hserved
        obtain ⟨i, hi⟩ := Option.isSome_iff_exists.mp hsome
        exact hnotHeld (hmask ▸ (hagrees.inv.slab_of_live ha hi).1)
      rw [HeapSys.freeTotal, hself.1, hserved, (SlabHeader.init_free c v.id).1,
        SlabHeader.remoteSlots]
      simp [SlabHeader.init, walk]
    · have hheld : s.pool.Held p := by
        change pool.Held p at hp
        rw [PagePool.Held, hinUse, habandoned, List.mem_cons] at hp
        exact hp.imp (fun hin => hin.resolve_left hps) id
      rw [HeapSys.freeTotal, (hother p hps).1]
      exact hagrees.balanced p hheld

/-- The counters of a heap, and the pool's, are in no view. -/
theorem HeapSys.Agrees.count
    (hagrees : s.Agrees ctx (Function.update views h v) lists roster allocs none) (h' : ℕ)
    (f : HeapMetrics → HeapMetrics) :
    (s.count h' f).Agrees ctx (Function.update views h v) lists roster allocs none := by
  have hown := hagrees.own
  have hheap (h₁ : ℕ) : ((s.count h' f).heap h₁).id = (s.heap h₁).id ∧
      ((s.count h' f).heap h₁).bins = (s.heap h₁).bins := by
    by_cases hh : h₁ = h'
    · subst hh
      simp [HeapSys.count, HeapSys.setHeap]
    · simp [HeapSys.count, HeapSys.setHeap, hh]
  exact hagrees.act (hagrees.inv.count h' f) ⟨(hheap h).1.trans hown.id,
    (hheap h).2.trans hown.bins, hown.queues,
    hown.header, hown.links⟩ rfl ⟨fun h₁ => (hheap h₁).1, fun h₁ _ => (hheap h₁).2, fun _ _ => rfl,
    fun _ _ _ => ⟨rfl, rfl, rfl⟩, rfl⟩ hagrees.divided
    (fun p hp => (hagrees.carries hp).congr rfl (fun h₁ => (hheap h₁).1) rfl)
    hagrees.shared hagrees.balanced
    fun _ _ _ => rfl

/-- The pool counts an adoption. -/
theorem HeapSys.Agrees.incAdoptCount
    (hagrees : s.Agrees ctx (Function.update views h v) lists roster allocs none) (c : ℕ) :
    HeapSys.Agrees { s with pool := s.pool.incAdoptCount c } ctx
      (Function.update views h v) lists roster
      allocs none := by
  have hinv := hagrees.inv.incAdoptCount c
  rw [← withHand_self lists] at hinv ⊢
  exact hagrees.repool hinv (fun _ hp => hp) ((hagrees.own.repool _).withHand _) rfl hagrees.divided
    (fun _ hp => hagrees.carries hp) hagrees.shared fun _ => rfl

/-- The pool had no page to give. -/
theorem HeapSys.Agrees.takeSlab_none
    (hagrees : s.Agrees ctx (Function.update views h v) lists roster allocs none)
    (hgives : s.pool.Gives pool none) :
    HeapSys.Agrees { s with pool := pool } ctx
      (Function.update views h v) lists roster allocs none := by
  obtain ⟨hquiet, hinUse, habandoned, hlarge⟩ := hgives
  have hinv := hagrees.inv.poolOnly hquiet hinUse habandoned hlarge
  rw [← withHand_self lists] at hinv ⊢
  refine hagrees.repool hinv (fun p hp => ?_)
    ((hagrees.own.repool _).withHand _) rfl hagrees.divided
    (fun _ hp => hagrees.carries hp) hagrees.shared fun _ => rfl
  rwa [PagePool.Held, hinUse, habandoned] at hp

/-- A large allocation is served from no page. -/
theorem not_served_of_large (hclass : classIndex a.layout = none) (p : ℕ) : ¬a.ServedFrom p :=
  fun hserved => by
  rw [Allocation.ServedFrom, hclass] at hserved
  simp at hserved

/-- `alloc_large` gives the thread a region. -/
theorem HeapSys.Agrees.allocLarge
    (hagrees : s.Agrees ctx (Function.update views h v) lists roster allocs none)
    (hlayout : classIndex layout = none) (hsize : 1 ≤ layout.size) {reply : Option ℕ}
    (halloc : s.pool.allocLargeToEnd layout.size layout.align reply = some (pool, some ptr)) :
    HeapSys.Agrees { s with pool := pool } ctx
      (Function.update views h { v with pending := ⟨ptr, layout⟩ :: v.pending }) lists roster
      (⟨ptr, layout⟩ :: allocs)
      none := by
  have hinv := hagrees.inv.allocLarge hlayout hsize halloc
  obtain ⟨-, hinUse, habandoned, -, -⟩ := hagrees.inv.quiet.allocLarge halloc
  have hown := hagrees.own
  have hnew : (⟨ptr, layout⟩ : Allocation) ∉ allocs := fun hin => by
    have honce := hinv.liveOnce
    rw [List.map_cons, List.nodup_cons] at honce
    exact honce.1 (List.mem_map.mpr ⟨_, hin, rfl⟩)
  rw [← withHand_self lists] at hinv ⊢
  refine hagrees.repool hinv (fun p hp => ?_) ⟨hown.id, hown.bins, fun queue c =>
    (withHand_queue _ _).trans (hown.queues queue c), hown.header, hown.links⟩ rfl hagrees.divided
    (fun _ hp => hagrees.carries hp) (hagrees.shared.cons hnew) fun p => ?_
  · rwa [PagePool.Held, hinUse, habandoned] at hp
  · have hnot := not_served_of_large (a := ⟨ptr, layout⟩) hlayout p
    simp [hnot]

/-- The page allocator had no region. -/
theorem HeapSys.Agrees.allocLarge_none
    (hagrees : s.Agrees ctx (Function.update views h v) lists roster allocs none) {size align : ℕ}
    {reply : Option ℕ} (halloc : s.pool.allocLargeToEnd size align reply = some (pool, none)) :
    HeapSys.Agrees { s with pool := pool } ctx
      (Function.update views h v) lists roster allocs none := by
  have hinv := hagrees.inv.allocLarge_none halloc
  obtain ⟨-, hinUse, habandoned, -, -⟩ := hagrees.inv.quiet.allocLarge halloc
  rw [← withHand_self lists] at hinv ⊢
  refine hagrees.repool hinv (fun p hp => ?_)
    ((hagrees.own.repool _).withHand _) rfl hagrees.divided
    (fun _ hp => hagrees.carries hp) hagrees.shared fun _ => rfl
  rwa [PagePool.Held, hinUse, habandoned] at hp

/-- `dealloc_large` of the allocation a thread is freeing. -/
theorem HeapSys.Agrees.deallocLarge
    (hagrees : s.Agrees ctx (Function.update views h v) lists roster allocs none)
    (ha : a ∈ v.pending) (hclass : classIndex a.layout = none) :
    HeapSys.Agrees { s with pool := s.pool.deallocLargeToEnd a.ptr a.layout.size } ctx
      (Function.update views h { v with
        pending := v.pending.erase a }) lists roster (allocs.erase a) none := by
  have hall := hagrees.shared.mem_all ha
  have hinv := hagrees.inv.deallocLarge hall hclass
  have hown := hagrees.own
  rw [← withHand_self lists] at hinv ⊢
  refine hagrees.repool hinv (fun p hp => ?_) ⟨hown.id, hown.bins, fun queue c =>
    (withHand_queue _ _).trans (hown.queues queue c), hown.header, hown.links⟩ rfl hagrees.divided
    (fun _ hp => hagrees.carries hp) (hagrees.shared.erase hagrees.allocs_nodup ha) fun p => ?_
  · have hserves := (hagrees.inv.serves a hall).2
    rw [hclass] at hserves
    rwa [PagePool.Held, (hagrees.inv.quiet.deallocLarge hserves.1).2.1] at hp
  · have herase := countP_erase_served hall p
    rwa [if_neg (not_served_of_large hclass p), Nat.add_zero] at herase

end ClMalloc
