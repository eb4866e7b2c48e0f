import ClMalloc.PagePool
import ClMalloc.PoolOps

/-!
# The pool under whole operations

When operations run one at a time every pool call starts and ends with no other call in
progress, so a single thread index serves for all of them and `owned 0` lists the pages the
heaps have been handed. Each operation keeps the pool quiet and accounted for; what it does
to the pages in use, to the abandoned lists and to the large regions is all its callers see.
-/

namespace ClMalloc

/-- The accounting holds and no call is in progress. -/
structure Quiet (s : PagePool) : Prop where
  inv : ∃ kind, PagePoolInv s kind
  idle : ∀ t, s.core.call t = .idle

/-- The pages handed to the heaps. -/
def PagePool.inUse (s : PagePool) : List ℕ := s.core.owned 0

/-- `cache_slab`, to its end. -/
def PagePool.cacheSlabToEnd (s : PagePool) (page : ℕ) : Option PagePool :=
  if slabCacheMax ≤ s.slabCacheLen then
    match s.core.deallocSlabToEnd 0 page with
    | some core => some { s with core := core }
    | none => none
  else s.cacheSlab 0 page

/-- `uncache_slab().or_else(|| alloc_slab())`, given the page allocator's answer should it be
asked. -/
def PagePool.takeSlab (s : PagePool) (reply : Option ℕ) : Option (PagePool × Option ℕ) :=
  match s.slabCache with
  | page :: _ => some (s.uncacheSlab 0, some page)
  | [] =>
    match s.core.allocSlabToEnd 0 reply with
    | some (core, result) => some ({ s with core := core }, result)
    | none => none

/-- `inc_adopt_count`. -/
def PagePool.incAdoptCount (s : PagePool) (classIdx : ℕ) : PagePool :=
  { s with core := { s.core with pool := incAdoptCountLocked s.core.pool classIdx } }

/-- `alloc_large`, given the page allocator's answer. -/
def PagePool.allocLargeToEnd (s : PagePool) (size align : ℕ) (reply : Option ℕ) :
    Option (PagePool × Option ℕ) :=
  match s.core.osAllocLarge 0 size align reply, reply with
  | some core, some base => some ({ s with core := core.allocLarge 0 base size }, some base)
  | some core, none => some ({ s with core := core }, none)
  | none, _ => none

/-- `dealloc_large`, to its end. -/
def PagePool.deallocLargeToEnd (s : PagePool) (base size : ℕ) : PagePool :=
  { s with core := (s.core.deallocLarge 0 base size).osDealloc 0 base size }

/-- A new pool is quiet. -/
theorem quiet_new : Quiet PagePool.new := ⟨⟨_, pagePoolInv_new⟩, fun _ => rfl⟩

variable {s s' : PagePool} {page base size : ℕ}

/-- `cache_slab` takes the page. -/
theorem Quiet.cacheSlab (h : Quiet s) (hpage : page ∈ s.inUse) :
    ∃ s', s.cacheSlabToEnd page = some s' ∧ Quiet s' ∧ s'.inUse = s.inUse.erase page ∧
      s'.abandoned = s.abandoned ∧ s'.core.large = s.core.large := by
  obtain ⟨kind, hinv⟩ := h.inv
  unfold PagePool.cacheSlabToEnd
  split
  case isTrue =>
    obtain ⟨core, kind', heq, hcore, hcall, howned, hlarge⟩ :=
      hinv.core.deallocSlabToEnd (h.idle 0) hpage
    rw [heq]
    refine ⟨_, rfl, ⟨⟨kind', hcore, hinv.cacheLen⟩, fun t => ?_⟩, ?_, rfl, hlarge⟩
    · rw [hcall]
      exact h.idle t
    · change core.owned 0 = _
      rw [howned, Function.update_self]
      rfl
  case isFalse hroom =>
    have hcached : s.cacheSlab 0 page = some _ := if_neg hroom
    have hstep : pagePoolStep s (.cacheSlab 0 page) = some _ :=
      (if_pos (show s.core.call 0 = .idle ∧ page ∈ s.core.owned 0 from ⟨h.idle 0, hpage⟩)).trans
        hcached
    refine ⟨_, hcached, ⟨hinv.step hstep, h.idle⟩, ?_, rfl, rfl⟩
    simp [PagePool.inUse, PoolCore.take]

/-- With a lawful answer of the page allocator, `alloc_slab` runs to its end. -/
theorem CoreInv.allocSlabToEnd_isSome {X : Type} [DecidableEq X] {c : PoolCore} {extra : X → List ℕ}
    {kind : ℕ → PageKind (Tag X)} {t : ℕ} (h : CoreInv c extra kind) (hcall : c.call t = .idle)
    {reply : Option ℕ}
    (hreply : ∀ base, reply = some base → c.os.Admits base segmentSize slabSize) :
    (c.allocSlabToEnd t reply).isSome = true := by
  unfold PoolCore.allocSlabToEnd
  rcases h.allocSlab hcall with ⟨pool, page, kind', heq, -⟩ | ⟨pool, heq, -⟩
  · rw [heq]
    rfl
  · rw [heq]
    cases reply with
    | none => simp [PoolCore.osAlloc, PoolCore.setCall]
    | some base =>
      have hanswer : (PoolCore.setCall { c with
          pool := pool } t .mapping).osAlloc t (some base) = some _ :=
        if_pos (hreply base rfl)
      simp only [hanswer]
      split
      · split <;> rfl
      · rfl

/-- The pool gave a page to the heaps, or had none to give. -/
structure PagePool.Gives (s s' : PagePool) (result : Option ℕ) : Prop where
  quiet : Quiet s'
  inUse : s'.inUse = result.toList ++ s.inUse
  abandoned : s'.abandoned = s.abandoned
  large : s'.core.large = s.core.large

/-- `alloc_slab` gives a page, whatever is in the cache. -/
theorem Quiet.allocSlab (h : Quiet s) {reply result : Option ℕ} {core : PoolCore}
    (halloc : s.core.allocSlabToEnd 0 reply = some (core, result)) :
    s.Gives { s with core := core } result := by
  obtain ⟨kind, hinv⟩ := h.inv
  obtain ⟨kind', hcore, hcall, howned, hlarge⟩ := hinv.core.allocSlabToEnd (h.idle 0) halloc
  refine ⟨⟨⟨kind', hcore, hinv.cacheLen⟩, fun t => ?_⟩, ?_, rfl, hlarge⟩
  · rw [hcall]
    exact h.idle t
  · change core.owned 0 = _
    rw [howned]
    cases result <;> simp [PoolCore.ownedAfter, PagePool.inUse]

/-- A page taken from the cache or from the pool joins those in use. -/
theorem Quiet.takeSlab (h : Quiet s) {reply result : Option ℕ}
    (htake : s.takeSlab reply = some (s', result)) :
    Quiet s' ∧ s'.inUse = result.toList ++ s.inUse ∧ s'.abandoned = s.abandoned ∧
      s'.core.large = s.core.large := by
  obtain ⟨kind, hinv⟩ := h.inv
  unfold PagePool.takeSlab at htake
  split at htake
  case h_1 page rest hcache =>
    cases htake
    have hstep : pagePoolStep s (.uncacheSlab 0) = some (s.uncacheSlab 0) := if_pos (h.idle 0)
    have heq : s.uncacheSlab 0 =
        { s with core := s.core.give 0 page, slabCache := rest,
                 slabCacheLen := s.slabCacheLen - 1 } := by
      simp [PagePool.uncacheSlab, hcache]
    rw [heq] at hstep ⊢
    exact ⟨⟨hinv.step hstep, h.idle⟩, by simp [PagePool.inUse, PoolCore.give], rfl, rfl⟩
  case h_2 =>
    split at htake <;> try contradiction
    case h_1 core result' halloc =>
      cases htake
      have hgives := h.allocSlab halloc
      exact ⟨hgives.quiet, hgives.inUse, hgives.abandoned, hgives.large⟩

/-- Taking a page fails only on an unlawful answer of the page allocator. -/
theorem Quiet.takeSlab_isSome (h : Quiet s) {reply : Option ℕ}
    (hreply : ∀ base, reply = some base → s.core.os.Admits base segmentSize slabSize) :
    (s.takeSlab reply).isSome = true := by
  obtain ⟨kind, hinv⟩ := h.inv
  have halloc := hinv.core.allocSlabToEnd_isSome (h.idle 0) hreply
  unfold PagePool.takeSlab
  split
  · rfl
  · split
    · rfl
    · rename_i hnone
      simp [hnone] at halloc

/-- `abandon_slab` passes the page to the list of its class. -/
theorem Quiet.abandonSlab (h : Quiet s) {classIdx : ℕ} (hpage : page ∈ s.inUse)
    (hclass : classIdx < numClasses) :
    Quiet (s.abandonSlab 0 classIdx page) ∧
      (s.abandonSlab 0 classIdx page).inUse = s.inUse.erase page := by
  obtain ⟨kind, hinv⟩ := h.inv
  have hstep : pagePoolStep s (.abandonSlab 0 classIdx page) =
      some (s.abandonSlab 0 classIdx page) :=
    if_pos ⟨h.idle 0, hpage, hclass⟩
  refine ⟨⟨hinv.step hstep, h.idle⟩, ?_⟩
  simp [PagePool.inUse, PagePool.abandonSlab, PoolCore.take]

/-- `adopt_all` passes the list of a class to the pages in use. -/
theorem Quiet.adoptAll (h : Quiet s) {classIdx : ℕ} (hclass : classIdx < numClasses) :
    Quiet (s.adoptAll 0 classIdx) ∧ (s.adoptAll 0 classIdx).inUse =
      s.abandoned classIdx ++ s.inUse := by
  obtain ⟨kind, hinv⟩ := h.inv
  have hstep : pagePoolStep s (.adoptAll 0 classIdx) = some (s.adoptAll 0 classIdx) :=
    if_pos ⟨h.idle 0, hclass⟩
  refine ⟨⟨hinv.step hstep, h.idle⟩, ?_⟩
  simp [PagePool.inUse, PagePool.adoptAll]

/-- Writing the pool's metrics changes no list. -/
theorem Quiet.setMetrics (h : Quiet s) (m : PoolMetrics) :
    Quiet { s with core := { s.core with pool := { s.core.pool with metrics := m } } } := by
  obtain ⟨kind, hinv⟩ := h.inv
  refine ⟨⟨kind, ?_, hinv.cacheLen⟩, h.idle⟩
  exact
    { pool := hinv.core.pool.withCounters _ _ _
      keyed := hinv.core.keyed
      calls := hinv.core.calls
      large_nodup := hinv.core.large_nodup
      regions := hinv.core.regions }

/-- Counting an adoption changes a counter only. -/
theorem Quiet.incAdoptCount (h : Quiet s) (classIdx : ℕ) :
    Quiet (s.incAdoptCount classIdx) := h.setMetrics _

/-- `alloc_large` hands out the region the page allocator answered with. -/
theorem Quiet.allocLarge (h : Quiet s) {align : ℕ} {reply result : Option ℕ}
    (halloc : s.allocLargeToEnd size align reply = some (s', result)) :
    Quiet s' ∧ s'.inUse = s.inUse ∧ s'.abandoned = s.abandoned ∧
      s'.core.large = (result.map fun base => (base, size)).toList ++ s.core.large ∧
      ∀ base, result = some base → 0 < base ∧ align ∣ base := by
  obtain ⟨kind, hinv⟩ := h.inv
  unfold PagePool.allocLargeToEnd at halloc
  cases reply with
  | none =>
    simp only [PoolCore.osAllocLarge] at halloc
    cases halloc
    exact ⟨h, rfl, rfl, rfl, by simp⟩
  | some base =>
    simp only [PoolCore.osAllocLarge] at halloc
    split at halloc
    case h_1 core base' hcore hreply =>
      cases hreply
      cases halloc
      have hmapped := hinv.core.osAllocLarge (h.idle 0)
        (show s.core.osAllocLarge 0 size align (some base) = _ from hcore)
      split at hcore <;> try contradiction
      case isTrue hadmits =>
        cases hcore
        have hthere : (PoolCore.setCall { s.core with os := s.core.os.alloc base ⟨size, .large⟩ } 0
            (.largeMapped base size)).call 0 = .largeMapped base size := by simp [PoolCore.setCall]
        have hlarge := hmapped.allocLarge hthere
        refine ⟨⟨⟨kind, hlarge, hinv.cacheLen⟩, fun t => ?_⟩, rfl, rfl, rfl, ?_⟩
        · change Function.update (Function.update s.core.call 0 _) 0 PoolCall.idle t = .idle
          rw [update_update_idle (h.idle 0)]
          exact h.idle t
        · rintro _ ⟨⟩
          exact ⟨hadmits.2.1, hadmits.2.2.1⟩
    case h_2 hreply => cases hreply
    case h_3 => cases halloc

/-- `dealloc_large` gives the region back. -/
theorem Quiet.deallocLarge (h : Quiet s) (hlarge : (base, size) ∈ s.core.large) :
    Quiet (s.deallocLargeToEnd base size) ∧ (s.deallocLargeToEnd base size).inUse = s.inUse ∧
      (s.deallocLargeToEnd base size).core.large = s.core.large.erase (base, size) := by
  obtain ⟨kind, hinv⟩ := h.inv
  have hfreeing := hinv.core.deallocLarge (h.idle 0) hlarge
  have hregion : ((s.core.deallocLarge 0 base size).call 0).region =
      some (base, ⟨size, .large⟩) := by
    simp [PoolCore.deallocLarge, PoolCore.setCall, PoolCall.region]
  have hdone := hfreeing.osDealloc ⟨size, .large⟩ hregion
  refine ⟨⟨⟨kind, hdone, hinv.cacheLen⟩, fun t => ?_⟩, rfl, rfl⟩
  change Function.update (Function.update s.core.call 0 _) 0 PoolCall.idle t = .idle
  rw [update_update_idle (h.idle 0)]
  exact h.idle t

/-- The page is in use or abandoned, so it holds an initialised slab. -/
def PagePool.Held (s : PagePool) (page : ℕ) : Prop :=
  page ∈ s.inUse ∨ ∃ classIdx, page ∈ s.abandoned classIdx

/-- The pages in use and the abandoned lists are without repetition and share no page. -/
theorem Quiet.lists_apart (h : Quiet s) : s.inUse.Nodup ∧ (∀ c, (s.abandoned c).Nodup) ∧
    (∀ c, s.inUse.Disjoint (s.abandoned c)) ∧
      ∀ c c', c ≠ c' → (s.abandoned c).Disjoint (s.abandoned c') := by
  obtain ⟨kind, hinv⟩ := h.inv
  refine ⟨(hinv.core.keyed (.owned 0)).2, fun c => (hinv.core.keyed (.other (.abandoned c))).2, ?_,
    ?_⟩
  · intro c p hp hp'
    have := hinv.core.keyed.unique (show p ∈ s.core.holder s.extra (.owned 0) from hp)
      (show p ∈ s.core.holder s.extra (.other (.abandoned c)) from hp')
    simp at this
  · intro c c' hne p hp hp'
    have := hinv.core.keyed.unique (show p ∈ s.core.holder s.extra (.other (.abandoned c)) from hp)
      (show p ∈ s.core.holder s.extra (.other (.abandoned c')) from hp')
    exact hne (by simpa using this)

/-- `abandon_slab` adds its page to the list of the class. -/
theorem PagePool.mem_abandonSlab (s : PagePool) (t classIdx page : ℕ) {p c : ℕ} :
    p ∈ (s.abandonSlab t classIdx page).abandoned c ↔ (c = classIdx ∧ p = page) ∨
      p ∈ s.abandoned c := by
  change p ∈ Function.update s.abandoned classIdx _ c ↔ _
  by_cases hc : c = classIdx
  · subst hc
    rw [Function.update_self, List.mem_cons]
    simp
  · rw [Function.update_of_ne hc]
    simp [hc]

/-- A page that is abandoned is held before and after. -/
theorem Quiet.held_abandonSlab (h : Quiet s) {classIdx p : ℕ} (hpage : page ∈ s.inUse)
    (hclass : classIdx < numClasses) : (s.abandonSlab 0 classIdx page).Held p ↔ s.Held p := by
  rw [PagePool.Held, PagePool.Held, (h.abandonSlab hpage hclass).2, h.lists_apart.1.mem_erase_iff]
  simp only [PagePool.mem_abandonSlab]
  constructor
  · rintro (⟨-, hp⟩ | ⟨c, ⟨-, rfl⟩ | hp⟩)
    · exact .inl hp
    · exact .inl hpage
    · exact .inr ⟨c, hp⟩
  · rintro (hp | ⟨c, hp⟩)
    · by_cases heq : p = page
      · exact .inr ⟨classIdx, .inl ⟨rfl, heq⟩⟩
      · exact .inl ⟨heq, hp⟩
    · exact .inr ⟨c, .inr hp⟩

/-- A held page lies in a registered segment. -/
theorem Quiet.registered (h : Quiet s) (hpage : s.Held page) :
    ∃ i < s.core.pool.segmentCount, slabSize ∣ s.core.pool.segments i ∧ 0 < s.core.pool.segments i ∧
      page ∈ segmentPages (s.core.pool.segments i) := by
  obtain ⟨kind, hinv⟩ := h.inv
  have hseg : ∃ i < s.core.pool.segmentCount, page ∈ segmentPages (s.core.pool.segments i) := by
    rcases hpage with hp | ⟨c, hp⟩
    · exact hinv.core.registered (show page ∈ s.core.holder s.extra (.owned 0) from hp)
    · exact hinv.core.registered (show page ∈ s.core.holder s.extra (.other (.abandoned c)) from hp)
  obtain ⟨i, hi, hmem⟩ := hseg
  exact ⟨i, hi, hinv.core.pool.base_aligned i hi, hinv.core.pool.base_pos i hi, hmem⟩

/-- A held page is aligned and not null. -/
theorem Quiet.aligned (h : Quiet s) (hpage : s.Held page) : slabSize ∣ page ∧ 0 < page := by
  obtain ⟨i, -, haligned, hpos, hmem⟩ := h.registered hpage
  obtain ⟨hle, -, hdvd⟩ := (mem_segmentPages haligned).mp hmem
  exact ⟨hdvd, by omega⟩

/-- A held page shares no byte with a large region. -/
theorem Quiet.page_apart (h : Quiet s) (hpage : s.Held page)
    (hlarge : (base, size) ∈ s.core.large) :
    base + size ≤ page ∨ page + slabSize ≤ base := by
  obtain ⟨i, hi, haligned, -, hmem⟩ := h.registered hpage
  obtain ⟨kind, hinv⟩ := h.inv
  obtain ⟨hle, hlt, hdvd⟩ := (mem_segmentPages haligned).mp hmem
  have htable : s.core.Owns .table (s.core.pool.segments i) segmentExtent := ⟨rfl, i, hi, rfl⟩
  have hcaller : s.core.Owns .caller base ⟨size, .large⟩ := ⟨rfl, hlarge⟩
  have happart := hinv.core.regions.disjoint htable hcaller (by simp)
  have hsize : segmentExtent.size = segmentSize := rfl
  obtain ⟨hslab, hsegment, -⟩ := pool_sizes
  rw [hsize] at happart
  rw [hslab] at hdvd haligned ⊢
  rw [hsegment] at happart hlt
  dsimp only at happart
  omega

/-- Two large regions share no byte. -/
theorem Quiet.large_apart (h : Quiet s) {base' size' : ℕ} (hlarge : (base, size) ∈ s.core.large)
    (hlarge' : (base', size') ∈ s.core.large) (hne : base ≠ base') :
    base + size ≤ base' ∨ base' + size' ≤ base := by
  obtain ⟨kind, hinv⟩ := h.inv
  have hcaller : s.core.Owns .caller base ⟨size, .large⟩ := ⟨rfl, hlarge⟩
  have hcaller' : s.core.Owns .caller base' ⟨size', .large⟩ := ⟨rfl, hlarge'⟩
  exact hinv.core.regions.contract.disjoint_of_holds (hinv.core.regions.holds hcaller)
    (hinv.core.regions.holds hcaller') hne

/-- There is one large region at an address. -/
theorem Quiet.large_size (h : Quiet s) {size' : ℕ} (hlarge : (base, size) ∈ s.core.large)
    (hlarge' : (base, size') ∈ s.core.large) : size' = size := by
  obtain ⟨kind, hinv⟩ := h.inv
  have hcaller : s.core.Owns .caller base ⟨size, .large⟩ := ⟨rfl, hlarge⟩
  have hcaller' : s.core.Owns .caller base ⟨size', .large⟩ := ⟨rfl, hlarge'⟩
  exact congrArg Extent.size (hinv.core.regions.extent_eq hcaller hcaller')

/-- A large region is handed out once. -/
theorem Quiet.large_nodup (h : Quiet s) : s.core.large.Nodup := by
  obtain ⟨kind, hinv⟩ := h.inv
  exact hinv.core.large_nodup

end ClMalloc
