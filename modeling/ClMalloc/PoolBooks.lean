import ClMalloc.MetricsRegistry
import ClMalloc.QuietPool

/-!
# The pool's operations leave the registry alone

Only `register_heap` and `deregister_heap` write to the registry and to the counters of the
dead heaps. Every critical section of the pool keeps them, and so does every pool call.
-/

namespace ClMalloc

/-- The registry of a pool. -/
def PoolState.registry (st : PoolState) : HeapRegistry := st.metrics.registry

/-- `PagePool::snapshot`, given the counters of the heaps. -/
def PoolState.snapshot (st : PoolState) (heaps : ℕ → HeapMetrics) : Option MetricsSnapshot :=
  let mapped := u64 (st.segmentCount * segmentSize + st.largeMappedBytes)
  match st.metrics.aggregateHeapMetrics heaps { MetricsSnapshot.new with mapped := mapped } with
  | some snapshot =>
    let snapshot := snapshot.finalize
    let largeLive := snapshot.largeAllocBytes - snapshot.largeDeallocBytes
    some { snapshot with active := u64 (st.outstandingSlabs * slabSize + largeLive) }
  | none => none

/-- A snapshot sums every counter over all heaps and takes its gauges from the sums. -/
theorem PoolState.snapshot_eq {st : PoolState} {heaps : ℕ → HeapMetrics} {entries : List ℕ}
    (hreg : RegistryInv st.registry heaps entries) :
    ∃ snapshot, st.snapshot heaps = some snapshot ∧
      (∀ k, snapshot.counter k = st.registry.total heaps entries k) ∧
      snapshot.allocated = snapshot.allocBytes - snapshot.freeBytes ∧
      (∀ i, snapshot.classLiveCount i =
        i64 (i64 (snapshot.classAllocCount i) - i64 (snapshot.classDeallocCount i))) ∧
      snapshot.mapped = u64 (st.segmentCount * segmentSize + st.largeMappedBytes) := by
  have hnew (k : Counter) : MetricsSnapshot.counter { MetricsSnapshot.new with
      mapped := u64 (st.segmentCount * segmentSize + st.largeMappedBytes) } k = 0 := by
    cases k <;> rfl
  obtain ⟨snapshot, haggregate, hsum⟩ := RegistryInv.aggregate hreg hnew
  have hsnapshot : st.snapshot heaps = some { snapshot.finalize with
      active := u64 (st.outstandingSlabs * slabSize +
        (snapshot.finalize.largeAllocBytes - snapshot.finalize.largeDeallocBytes)) } := by
    unfold PoolState.snapshot
    simp only
    rw [haggregate]
  refine ⟨_, hsnapshot, fun k => ?_, rfl, fun _ => rfl, ?_⟩
  · refine Eq.trans ?_ (hsum k)
    cases k <;> rfl
  · exact PoolMetrics.aggregateHeapMetrics_mapped haggregate

variable {st st' : PoolState} {c c' : PoolCore} {s s' : PagePool} {t page base size : ℕ}
  {result reply : Option ℕ} {buf : List ℕ}

/-- Popping a free page keeps the registry. -/
theorem popFree_registry (h : popFree st = some (page, st')) : st'.registry = st.registry := by
  unfold popFree at h
  split at h
  · cases h
    rfl
  · split at h <;> try contradiction
    cases h
    rfl

/-- `alloc_slab` keeps the registry. -/
theorem allocSlabLocked_registry (h : allocSlabLocked st = some (st', result)) :
    st'.registry = st.registry := by
  unfold allocSlabLocked at h
  split at h
  case h_1 slab st₁ hpop =>
    have hkept := popFree_registry hpop
    split at h <;> try contradiction
    cases h
    exact hkept
  case h_2 =>
    simp only at h
    split at h
    all_goals
      cases h
      rfl

/-- `alloc_slab_slow` keeps the registry. -/
theorem allocSlabSlowLocked_registry (st : PoolState) (base : ℕ) :
    (allocSlabSlowLocked st base).1.registry = st.registry := by
  unfold allocSlabSlowLocked
  simp only
  split
  · rfl
  · split <;> rfl

/-- `swap_remove_segment` keeps the registry. -/
theorem swapRemoveSegment_registry (st : PoolState) (segIdx : ℕ) :
    (swapRemoveSegment st segIdx).registry = st.registry := by
  unfold swapRemoveSegment
  simp only
  split <;> rfl

/-- `dealloc_slab` keeps the registry. -/
theorem deallocSlabLocked_registry {outcome : DeallocOutcome}
    (h : deallocSlabLocked st page = some (st', outcome)) :
    st'.registry = st.registry := by
  unfold deallocSlabLocked at h
  simp only at h
  split at h <;> try contradiction
  split at h
  · cases h
    exact swapRemoveSegment_registry _ _
  · split at h
    all_goals
      cases h
      rfl

/-- The first loop of `purge_excess` keeps the registry. -/
theorem purgeTakeLoop_registry {room : ℕ} {buf' : List ℕ}
    (h : purgeTakeLoop room st buf = some (st', buf')) :
    st'.registry = st.registry := by
  induction room generalizing st buf with
  | zero =>
    cases h
    rfl
  | succ room ih =>
    unfold purgeTakeLoop at h
    split at h
    · split at h
      · simp only at h
        split at h <;> try contradiction
        exact (ih h).trans rfl
      · cases h
        rfl
    · cases h
      rfl

/-- The second loop of `purge_excess` keeps the registry. -/
theorem purgeReturnLoop_registry (h : purgeReturnLoop buf st = some st') :
    st'.registry = st.registry := by
  induction buf generalizing st with
  | nil =>
    cases h
    rfl
  | cons slab rest ih =>
    unfold purgeReturnLoop at h
    split at h <;> try contradiction
    simp only at h
    exact (ih h).trans rfl

/-- No step of the pool changes the registry. -/
theorem poolStep_registry {l : PoolLabel} (hstep : poolStep c l = some c') :
    c'.pool.registry = c.pool.registry := by
  have hsection := poolStep_section hstep
  generalize c'.pool = pool at hsection ⊢
  cases hsection with
  | allocSlab heq => exact allocSlabLocked_registry heq
  | allocSlabSlow hcall => exact allocSlabSlowLocked_registry _ _
  | deallocSlab hp heq => exact deallocSlabLocked_registry heq
  | purgeTake heq => exact (purgeTakeLoop_registry heq).trans rfl
  | purgeReturn hcall heq => exact (purgeReturnLoop_registry heq).trans rfl
  | count bytes => rfl

/-- `alloc_slab` to its end keeps the registry. -/
theorem PoolCore.allocSlabToEnd_registry (h : c.allocSlabToEnd t reply = some (c', result)) :
    c'.pool.registry = c.pool.registry := by
  unfold PoolCore.allocSlabToEnd at h
  have hfirst {c₁ : PoolCore} {first : Option ℕ} (halloc : c.allocSlab t = some (c₁, first)) :
      c₁.pool.registry = c.pool.registry := by
    unfold PoolCore.allocSlab at halloc
    split at halloc <;> try contradiction
    all_goals
      cases halloc
      exact allocSlabLocked_registry (by assumption)
  split at h <;> try contradiction
  case h_1 c₁ page halloc =>
    cases h
    exact hfirst halloc
  case h_2 c₁ halloc =>
    split at h <;> try contradiction
    case h_1 c₂ hanswer =>
      have hsecond : c₂.pool.registry = c₁.pool.registry := by
        unfold PoolCore.osAlloc at hanswer
        split at hanswer
        · cases hanswer
          rfl
        · split at hanswer <;> try contradiction
          cases hanswer
          rfl
      split at h
      case h_1 base hcall =>
        have hthird : (c₂.allocSlabSlow t base).1.pool.registry = c₂.pool.registry := by
          have hslow := allocSlabSlowLocked_registry c₂.pool base
          unfold PoolCore.allocSlabSlow
          split
          all_goals
            rename_i heq
            rw [heq] at hslow
            exact hslow
        split at h
        all_goals
          rename_i heq
          rw [heq] at hthird
          cases h
          exact hthird.trans (hsecond.trans (hfirst halloc))
      case h_2 =>
        cases h
        exact hsecond.trans (hfirst halloc)

/-- `purge_excess` keeps the registry. -/
theorem PoolCore.purgeExcess_registry (h : c.purgeExcess t = some c') :
    c'.pool.registry = c.pool.registry := by
  unfold PoolCore.purgeExcess at h
  split at h <;> try contradiction
  case h_1 c₁ htake =>
    have hfirst : c₁.pool.registry = c.pool.registry := by
      unfold PoolCore.purgeTake at htake
      split at htake <;> try contradiction
      case h_1 pool buf hlocked =>
        cases htake
        unfold purgeTakeLocked at hlocked
        exact (purgeTakeLoop_registry hlocked).trans rfl
    split at h <;> try contradiction
    case h_1 todo buf hcall =>
      unfold PoolCore.purgeReturn at h
      split at h <;> try contradiction
      case h_1 pool hlocked =>
        cases h
        unfold purgeReturnLocked at hlocked
        exact (purgeReturnLoop_registry hlocked).trans hfirst

/-- `dealloc_slab` to its end keeps the registry. -/
theorem PoolCore.deallocSlabToEnd_registry (h : c.deallocSlabToEnd t page = some c') :
    c'.pool.registry = c.pool.registry := by
  unfold PoolCore.deallocSlabToEnd at h
  split at h <;> try contradiction
  case h_1 c₁ hdealloc =>
    have hfirst : c₁.pool.registry = c.pool.registry := by
      unfold PoolCore.deallocSlab at hdealloc
      split at hdealloc <;> try contradiction
      all_goals
        cases hdealloc
        exact deallocSlabLocked_registry (by assumption)
    split at h
    · cases h
      exact hfirst
    · exact (PoolCore.purgeExcess_registry h).trans hfirst
    · cases h
      exact hfirst

/-- `cache_slab` keeps the registry. -/
theorem PagePool.cacheSlabToEnd_registry (h : s.cacheSlabToEnd page = some s') :
    s'.core.pool.registry = s.core.pool.registry := by
  unfold PagePool.cacheSlabToEnd at h
  split at h
  case isTrue =>
    split at h <;> try contradiction
    case h_1 core hdealloc =>
      cases h
      exact PoolCore.deallocSlabToEnd_registry hdealloc
  case isFalse hroom =>
    have hcached : s.cacheSlab 0 page = some _ := if_neg hroom
    rw [hcached] at h
    cases h
    rfl

/-- `uncache_slab` and `alloc_slab` keep the registry. -/
theorem PagePool.takeSlab_registry (h : s.takeSlab reply = some (s', result)) :
    s'.core.pool.registry = s.core.pool.registry := by
  unfold PagePool.takeSlab at h
  split at h
  case h_1 page rest hcache =>
    cases h
    simp only [PagePool.uncacheSlab, hcache]
    rfl
  case h_2 =>
    split at h <;> try contradiction
    case h_1 core result' halloc =>
      cases h
      exact PoolCore.allocSlabToEnd_registry halloc

/-- `alloc_large` keeps the registry. -/
theorem PagePool.allocLargeToEnd_registry {align : ℕ}
    (h : s.allocLargeToEnd size align reply = some (s', result)) :
    s'.core.pool.registry = s.core.pool.registry := by
  unfold PagePool.allocLargeToEnd at h
  cases reply with
  | none =>
    cases h
    rfl
  | some base =>
    simp only [PoolCore.osAllocLarge] at h
    by_cases hanswer : 0 < size ∧ s.core.os.Admits base size align
    · rw [if_pos hanswer] at h
      cases h
      rfl
    · rw [if_neg hanswer] at h
      cases h

end ClMalloc
