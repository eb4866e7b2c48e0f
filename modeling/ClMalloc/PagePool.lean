import ClMalloc.PoolCoreInvariant

/-!
# The page pool with its slab cache and abandoned lists

Beside the data behind the lock the pool has a cache of free slab pages and one list of
abandoned slabs for each size class. Here each operation on these lists is one atomic step;
the steps of the pool's critical sections interleave with them freely. The invariant is the
accounting of the core with the two kinds of list as further places a page can be.
-/

namespace ClMalloc

/-- The slab cache sends pages back to the pool from this length on. -/
def slabCacheMax : ℕ := 512

/-- The lists outside the lock that hold pages. -/
inductive Place
  | cached
  | abandoned (classIdx : ℕ)
  deriving DecidableEq

/-- The page pool; the lists are in link order. -/
structure PagePool where
  core : PoolCore
  abandoned : ℕ → List ℕ
  slabCache : List ℕ
  slabCacheLen : ℕ

/-- A new pool. -/
def PagePool.new : PagePool := ⟨.new, fun _ => [], [], 0⟩

/-- The pages in each place outside the lock. -/
def PagePool.extra (s : PagePool) : Place → List ℕ
  | .cached => s.slabCache
  | .abandoned classIdx => s.abandoned classIdx

/-- `cache_slab`: push the page, or start returning it when the cache is full. -/
def PagePool.cacheSlab (s : PagePool) (t page : ℕ) : Option PagePool :=
  if slabCacheMax ≤ s.slabCacheLen then
    (s.core.deallocSlab t page).map fun core => { s with core := core }
  else
    some { s with
      core := s.core.take t page
      slabCache := page :: s.slabCache
      slabCacheLen := s.slabCacheLen + 1 }

/-- `uncache_slab`: pop a page, if there is one. -/
def PagePool.uncacheSlab (s : PagePool) (t : ℕ) : PagePool :=
  match s.slabCache with
  | [] => s
  | page :: rest =>
    { s with core := s.core.give t page, slabCache := rest, slabCacheLen := s.slabCacheLen - 1 }

/-- `abandon_slab`: push the slab on the list of its class and count it. -/
def PagePool.abandonSlab (s : PagePool) (t classIdx page : ℕ) : PagePool :=
  { s with
    core := PoolCore.take { s.core with pool := abandonSlabLocked s.core.pool classIdx } t page
    abandoned := Function.update s.abandoned classIdx (page :: s.abandoned classIdx) }

/-- `adopt_all`: take the whole list of a class. -/
def PagePool.adoptAll (s : PagePool) (t classIdx : ℕ) : PagePool :=
  { s with
    core := { s.core with
      owned := Function.update s.core.owned t (s.abandoned classIdx ++ s.core.owned t) }
    abandoned := Function.update s.abandoned classIdx [] }

/-- One atomic step of one thread. -/
inductive PagePoolLabel
  | core (l : PoolLabel)
  | cacheSlab (t page : ℕ)
  | uncacheSlab (t : ℕ)
  | abandonSlab (t classIdx page : ℕ)
  | adoptAll (t classIdx : ℕ)
  deriving DecidableEq

/-- A thread calls into the pool when it is in no other call, with a page it was handed. -/
def pagePoolStep (s : PagePool) : PagePoolLabel → Option PagePool
  | .core l => (poolStep s.core l).map fun core => { s with core := core }
  | .cacheSlab t page => if s.core.call t = .idle ∧ page ∈ s.core.owned t then s.cacheSlab t page
      else none
  | .uncacheSlab t => if s.core.call t = .idle then some (s.uncacheSlab t) else none
  | .abandonSlab t classIdx page =>
    if s.core.call t = .idle ∧ page ∈ s.core.owned t ∧ classIdx < numClasses then
      some (s.abandonSlab t classIdx page)
    else none
  | .adoptAll t classIdx =>
    if s.core.call t = .idle ∧ classIdx < numClasses then some (s.adoptAll t classIdx) else none

/-- The accounting of the pool, with the cache's length field. -/
structure PagePoolInv (s : PagePool) (kind : ℕ → PageKind (Tag Place)) : Prop where
  core : CoreInv s.core s.extra kind
  cacheLen : s.slabCacheLen = s.slabCache.length

/-- A new pool satisfies the invariant. -/
theorem pagePoolInv_new : PagePoolInv PagePool.new fun _ => .outside := by
  refine ⟨?_, rfl⟩
  have hextra : PagePool.new.extra = fun _ => [] := by
    funext x
    cases x <;> rfl
  rw [hextra]
  exact coreInv_new

variable {s s' : PagePool} {kind : ℕ → PageKind (Tag Place)} {t : ℕ}

/-- Changing one abandoned list changes that place only. -/
theorem PagePool.extra_abandoned (s : PagePool) (classIdx : ℕ) (l : List ℕ) :
    Function.update s.extra (.abandoned classIdx) l =
      PagePool.extra { s with abandoned := Function.update s.abandoned classIdx l } := by
  funext x
  cases x with
  | cached => rfl
  | abandoned i =>
    by_cases hi : i = classIdx
    · subst hi
      simp [PagePool.extra]
    · simp [PagePool.extra, hi]

/-- Every atomic step keeps the accounting, under some new map. -/
theorem PagePoolInv.step (h : PagePoolInv s kind) {l : PagePoolLabel}
    (hstep : pagePoolStep s l = some s') :
    ∃ kind', PagePoolInv s' kind' := by
  cases l with
  | core l =>
    obtain ⟨c, hc, rfl⟩ := Option.map_eq_some_iff.mp hstep
    obtain ⟨kind', hinv⟩ := h.core.step hc
    exact ⟨kind', hinv, h.cacheLen⟩
  | cacheSlab t page =>
    simp only [pagePoolStep] at hstep
    split at hstep <;> try contradiction
    rename_i hguard
    unfold PagePool.cacheSlab at hstep
    split at hstep
    · obtain ⟨pool, k, kind', heq, hinv, -⟩ := h.core.deallocSlab hguard.1 hguard.2
      rw [heq] at hstep
      obtain rfl := Option.some.inj hstep
      exact ⟨kind', hinv, h.cacheLen⟩
    · obtain rfl := Option.some.inj hstep
      have hextra : Function.update s.extra .cached (page :: s.slabCache) =
          PagePool.extra { s with slabCache := page :: s.slabCache } := by
        funext x
        cases x <;> simp [PagePool.extra]
      have hput := h.core.put .cached s.core.pool hguard.2 h.core.pool ⟨rfl, rfl⟩
      exact ⟨_, hextra ▸ hput, congrArg (· + 1) h.cacheLen⟩
  | uncacheSlab t =>
    simp only [pagePoolStep] at hstep
    split at hstep <;> try contradiction
    obtain rfl := Option.some.inj hstep
    unfold PagePool.uncacheSlab
    split
    · exact ⟨kind, h⟩
    · rename_i page rest hcache
      have hextra : Function.update s.extra .cached rest = PagePool.extra { s with
          slabCache := rest } := by
        funext x
        cases x <;> simp [PagePool.extra]
      have hget := h.core.get t .cached [page] rest hcache
      refine ⟨_, hextra ▸ hget, ?_⟩
      have hlen := h.cacheLen
      rw [hcache, List.length_cons] at hlen
      change s.slabCacheLen - 1 = rest.length
      omega
  | abandonSlab t classIdx page =>
    simp only [pagePoolStep] at hstep
    split at hstep <;> try contradiction
    rename_i hguard
    obtain rfl := Option.some.inj hstep
    have hput := h.core.put (.abandoned classIdx)
      (abandonSlabLocked s.core.pool classIdx) hguard.2.1
      (h.core.pool.withCounters _ _ _) ⟨rfl, rfl⟩
    exact ⟨_, s.extra_abandoned classIdx (page :: s.abandoned classIdx) ▸ hput, h.cacheLen⟩
  | adoptAll t classIdx =>
    simp only [pagePoolStep] at hstep
    split at hstep <;> try contradiction
    obtain rfl := Option.some.inj hstep
    have hget := h.core.get t (.abandoned classIdx) (s.abandoned classIdx) []
      (List.append_nil _).symm
    exact ⟨_, s.extra_abandoned classIdx [] ▸ hget, h.cacheLen⟩

/-- Every reachable state is accounted for. -/
theorem pagePoolInv_run {labels : List PagePoolLabel}
    (hrun : Transition.run pagePoolStep PagePool.new labels = some s) :
    ∃ kind, PagePoolInv s kind :=
  Transition.run_invariant (I := fun s => ∃ kind, PagePoolInv s kind)
    (fun _ _ _ ⟨_, h⟩ hstep => h.step hstep) ⟨_, pagePoolInv_new⟩ hrun

/-- The thread that takes the step. -/
def PagePoolLabel.thread : PagePoolLabel → ℕ
  | .core l => l.thread
  | .cacheSlab t _ | .uncacheSlab t | .abandonSlab t _ _ | .adoptAll t _ => t

/-- A step moves only the thread that takes it. -/
theorem pagePoolStep_frame {l : PagePoolLabel} (ht : l.thread ≠ t)
    (hstep : pagePoolStep s l = some s') :
    s'.core.call t = s.core.call t := by
  cases l with
  | core l =>
    obtain ⟨c, hc, rfl⟩ := Option.map_eq_some_iff.mp hstep
    exact (poolStep_frame (Ne.symm ht) hc).1
  | cacheSlab t' page =>
    have ht' : t ≠ t' := Ne.symm ht
    simp only [pagePoolStep] at hstep
    split at hstep <;> try contradiction
    unfold PagePool.cacheSlab at hstep
    split at hstep
    · obtain ⟨c, hc, rfl⟩ := Option.map_eq_some_iff.mp hstep
      unfold PoolCore.deallocSlab at hc
      split at hc <;> try contradiction
      all_goals
        cases hc
        simp [PoolCore.setCall, PoolCore.take, ht']
    · cases hstep
      rfl
  | uncacheSlab t' =>
    simp only [pagePoolStep] at hstep
    split at hstep <;> try contradiction
    cases hstep
    unfold PagePool.uncacheSlab
    split <;> rfl
  | abandonSlab t' classIdx page =>
    simp only [pagePoolStep] at hstep
    split at hstep <;> try contradiction
    cases hstep
    rfl
  | adoptAll t' classIdx =>
    simp only [pagePoolStep] at hstep
    split at hstep <;> try contradiction
    cases hstep
    rfl

/-- A thread that takes no step of the run stays where it was. -/
theorem run_pagePoolStep_call {labels : List PagePoolLabel} (ht : ∀ l ∈ labels, l.thread ≠ t)
    (hrun : Transition.run pagePoolStep s labels = some s') : s'.core.call t = s.core.call t := by
  refine Transition.run_invariant_of_labels
    (I := fun s' => s'.core.call t = s.core.call t) ?_ rfl hrun
  intro l hl s₁ s₂ hcall hstep
  rw [pagePoolStep_frame (ht l hl) hstep, hcall]

end ClMalloc
