import ClMalloc.SlabCacheInvariant
import ClMalloc.PoolBooks
import ClMalloc.PoolGauges

/-!
# The pool with all that runs on it

Threads run the pool's critical sections and the atomic steps of the slab cache, abandon
slabs and adopt them, and the heaps are registered, counted and deregistered, all in any
order. A push on an abandoned list and the exchange that empties it are one step each; the
critical section that counts the push, and the one that counts each adopted slab, are steps
of their own, so a thread can be between the two.
-/

namespace ClMalloc

open Transition

/-- The pool and the threads; for each thread and class the abandoned and adopted slabs it has still
to count; the heaps. -/
structure PoolSys where
  cache : CacheSys
  abandoned : ℕ → List ℕ
  abandoning : ℕ → ℕ → ℕ
  adopting : ℕ → ℕ → ℕ
  heaps : ℕ → HeapMetrics
  registered : List ℕ

/-- A new pool that no thread and no heap uses. -/
def PoolSys.new : PoolSys := ⟨.new, fun _ => [], fun _ _ => 0, fun _ _ => 0, fun _ => .zero, []⟩

/-- The data behind the lock. -/
def PoolSys.pool (s : PoolSys) : PoolState := s.cache.core.pool

/-- Write the data behind the lock. -/
def PoolSys.setPool (s : PoolSys) (pool : PoolState) : PoolSys :=
  { s with cache := { s.cache with core := { s.cache.core with pool := pool } } }

/-- Write the pool's metrics and those of the heaps. -/
def PoolSys.setMetrics (s : PoolSys) (m : PoolMetrics) (heaps : ℕ → HeapMetrics) : PoolSys :=
  { s.setPool { s.pool with metrics := m } with heaps := heaps }

/-- Change what a thread has still to count for a class. -/
def setPending (pending : ℕ → ℕ → ℕ) (t classIdx n : ℕ) : ℕ → ℕ → ℕ :=
  Function.update pending t (Function.update (pending t) classIdx n)

/-- The push of `abandon_slab`. -/
def PoolSys.abandonSlab (s : PoolSys) (t classIdx page : ℕ) : PoolSys :=
  { s with
    cache := { s.cache with core := s.cache.core.take t page }
    abandoned := Function.update s.abandoned classIdx (page :: s.abandoned classIdx)
    abandoning := setPending s.abandoning t classIdx (s.abandoning t classIdx + 1) }

/-- `adopt_all`; `try_adopt` then counts every slab of the list. -/
def PoolSys.adoptAll (s : PoolSys) (t classIdx : ℕ) : PoolSys :=
  { s with
    cache := { s.cache with core := { s.cache.core with
      owned := Function.update s.cache.core.owned t
        (s.abandoned classIdx ++ s.cache.core.owned t) } }
    abandoned := Function.update s.abandoned classIdx []
    adopting := setPending s.adopting t classIdx
      (s.adopting t classIdx + (s.abandoned classIdx).length) }

/-- One atomic step of one thread. -/
inductive PoolSysLabel
  | cache (l : CacheLabel)
  | abandonSlab (t classIdx page : ℕ)
  | countAbandon (t classIdx : ℕ)
  | adoptAll (t classIdx : ℕ)
  | countAdopt (t classIdx : ℕ)
  | registerHeap (h : ℕ)
  | countEvent (h : ℕ) (event : CountEvent)
  | deregisterHeap (h : ℕ)
  | snapshot

/-- The thread is in no call of the pool or the cache. -/
def PoolSys.Idle (s : PoolSys) (t : ℕ) : Prop := s.cache.pc t = .idle ∧ s.cache.core.call t = .idle

/-- Whether a thread is in a call can be computed. -/
instance (s : PoolSys) (t : ℕ) : Decidable (s.Idle t) :=
  inferInstanceAs (Decidable (s.cache.pc t = .idle ∧ s.cache.core.call t = .idle))

/-- A thread gives away pages it was handed; a heap is registered once, and counts until it is
deregistered. -/
def poolSysStep (s : PoolSys) : PoolSysLabel → Option PoolSys
  | .cache l => (cacheStep s.cache l).map fun cache => { s with cache := cache }
  | .abandonSlab t classIdx page =>
    if s.Idle t ∧ page ∈ s.cache.core.owned t ∧ classIdx < numClasses then
      some (s.abandonSlab t classIdx page)
    else none
  | .countAbandon t classIdx =>
    if 0 < s.abandoning t classIdx then
      some { s.setPool (abandonSlabLocked s.pool classIdx) with
        abandoning := setPending s.abandoning t classIdx (s.abandoning t classIdx - 1) }
    else none
  | .adoptAll t classIdx => if s.Idle t ∧ classIdx < numClasses then some (s.adoptAll t classIdx)
      else none
  | .countAdopt t classIdx =>
    if 0 < s.adopting t classIdx then
      some { s.setPool (incAdoptCountLocked s.pool classIdx) with
        adopting := setPending s.adopting t classIdx (s.adopting t classIdx - 1) }
    else none
  | .registerHeap h =>
    if h ∉ s.registered then
      (s.pool.metrics.registerHeap (Function.update s.heaps h .zero) h).map fun r =>
        { s.setMetrics r.1 r.2 with registered := h :: s.registered }
    else none
  | .countEvent h event =>
    if h ∈ s.registered ∧ event.InRange then
      some { s with heaps := Function.update s.heaps h ((s.heaps h).onEvent event) }
    else none
  | .deregisterHeap h =>
    if h ∈ s.registered then
      (s.pool.metrics.deregisterHeap s.heaps h).map fun r =>
        { s.setMetrics r.1 r.2 with registered := s.registered.erase h }
    else none
  | .snapshot => some s

/-- What a step can do. -/
inductive PoolSysStepped (s : PoolSys) : PoolSysLabel → PoolSys → Prop
  | cache {l : CacheLabel} {cache : CacheSys} (hcache : cacheStep s.cache l = some cache) :
    PoolSysStepped s (.cache l) { s with cache := cache }
  | abandonSlab {t classIdx page : ℕ} (hidle : s.Idle t) (howned : page ∈ s.cache.core.owned t)
    (hclass : classIdx < numClasses) :
    PoolSysStepped s (.abandonSlab t classIdx page) (s.abandonSlab t classIdx page)
  | countAbandon {t classIdx : ℕ} (hpending : 0 < s.abandoning t classIdx) :
    PoolSysStepped s (.countAbandon t classIdx) { s.setPool (abandonSlabLocked s.pool classIdx) with
      abandoning := setPending s.abandoning t classIdx (s.abandoning t classIdx - 1) }
  | adoptAll {t classIdx : ℕ} (hidle : s.Idle t) (hclass : classIdx < numClasses) :
    PoolSysStepped s (.adoptAll t classIdx) (s.adoptAll t classIdx)
  | countAdopt {t classIdx : ℕ} (hpending : 0 < s.adopting t classIdx) :
    PoolSysStepped s (.countAdopt t classIdx) { s.setPool (incAdoptCountLocked s.pool classIdx) with
      adopting := setPending s.adopting t classIdx (s.adopting t classIdx - 1) }
  | registerHeap {h : ℕ} {m : PoolMetrics} {heaps : ℕ → HeapMetrics} (hnew : h ∉ s.registered)
    (hregister : s.pool.metrics.registerHeap (Function.update s.heaps h .zero) h =
      some (m, heaps)) :
    PoolSysStepped s (.registerHeap h) { s.setMetrics m heaps with registered := h :: s.registered }
  | countEvent {h : ℕ} {event : CountEvent} (hmem : h ∈ s.registered) (hrange : event.InRange) :
    PoolSysStepped s (.countEvent h event) { s with
      heaps := Function.update s.heaps h ((s.heaps h).onEvent event) }
  | deregisterHeap {h : ℕ} {m : PoolMetrics} {heaps : ℕ → HeapMetrics} (hmem : h ∈ s.registered)
    (hderegister : s.pool.metrics.deregisterHeap s.heaps h = some (m, heaps)) :
    PoolSysStepped s (.deregisterHeap h) { s.setMetrics m heaps with
      registered := s.registered.erase h }
  | snapshot : PoolSysStepped s .snapshot s

/-- Every step does one of these. -/
theorem poolSysStep_cases {s s' : PoolSys} {l : PoolSysLabel} (hstep : poolSysStep s l = some s') :
    PoolSysStepped s l s' := by
  cases l with
  | cache l =>
    obtain ⟨cache, hcache, rfl⟩ := Option.map_eq_some_iff.mp hstep
    exact .cache hcache
  | abandonSlab t classIdx page =>
    simp only [poolSysStep] at hstep
    split at hstep <;> cases hstep
    rename_i hready
    exact .abandonSlab hready.1 hready.2.1 hready.2.2
  | countAbandon t classIdx =>
    simp only [poolSysStep] at hstep
    split at hstep <;> cases hstep
    exact .countAbandon ‹_›
  | adoptAll t classIdx =>
    simp only [poolSysStep] at hstep
    split at hstep <;> cases hstep
    rename_i hready
    exact .adoptAll hready.1 hready.2
  | countAdopt t classIdx =>
    simp only [poolSysStep] at hstep
    split at hstep <;> cases hstep
    exact .countAdopt ‹_›
  | registerHeap h =>
    simp only [poolSysStep] at hstep
    split at hstep <;> try contradiction
    case isTrue hnew =>
      obtain ⟨⟨m, heaps⟩, hregister, rfl⟩ := Option.map_eq_some_iff.mp hstep
      exact .registerHeap hnew hregister
  | countEvent h event =>
    simp only [poolSysStep] at hstep
    split at hstep <;> cases hstep
    rename_i hready
    exact .countEvent hready.1 hready.2
  | deregisterHeap h =>
    simp only [poolSysStep] at hstep
    split at hstep <;> try contradiction
    case isTrue hmem =>
      obtain ⟨⟨m, heaps⟩, hderegister, rfl⟩ := Option.map_eq_some_iff.mp hstep
      exact .deregisterHeap hmem hderegister
  | snapshot =>
    cases hstep
    exact .snapshot

/-- The exchange of a pop that the step would make finds the link it read. -/
def PoolSys.Fresh (s : PoolSys) : PoolSysLabel → Prop
  | .cache l => LinkFresh s.cache l
  | _ => True

/-- Whether a link is fresh can be computed. -/
instance (s : PoolSys) : (l : PoolSysLabel) → Decidable (s.Fresh l)
  | .cache l => inferInstanceAs (Decidable (LinkFresh s.cache l))
  | .abandonSlab .. | .countAbandon .. | .adoptAll .. | .countAdopt .. |
      .registerHeap _ | .countEvent ..
  | .deregisterHeap _ | .snapshot => isTrue trivial

/-- The accounting of the pages, with the abandoned lists, and the registry of heaps. -/
structure PoolSysInv (s : PoolSys) (kind : ℕ → PageKind (Tag (Option ℕ))) (entries : List ℕ) :
    Prop where
  cache : CacheInv s.cache s.abandoned kind
  registry : RegistryInv s.pool.metrics.registry s.heaps entries
  registered : ∀ h, h ∈ entries ↔ h ∈ s.registered
  registeredOnce : s.registered.Nodup

/-- A new pool satisfies the invariant. -/
theorem poolSysInv_new : PoolSysInv PoolSys.new (fun _ => .outside) [] where
  cache := cacheInv_new
  registry := registryInv_new _
  registered := by simp [PoolSys.new]
  registeredOnce := List.nodup_nil

variable {s s' : PoolSys} {kind : ℕ → PageKind (Tag (Option ℕ))} {entries : List ℕ}
  {t classIdx page : ℕ}

/-- Changing one abandoned list changes that place only. -/
theorem CacheSys.places_update (s : CacheSys) (abandoned : ℕ → List ℕ) (classIdx : ℕ) (l : List ℕ) :
    Function.update (s.places abandoned) (some classIdx) l =
      s.places (Function.update abandoned classIdx l) := by
  funext x
  cases x with
  | none => simp [CacheSys.places]
  | some i =>
    by_cases hi : i = classIdx
    · subst hi
      simp [CacheSys.places]
    · simp [CacheSys.places, hi]

/-- An abandoned page leaves its owner for the list of its class. -/
theorem CacheInv.abandonSlab {s : CacheSys} {abandoned : ℕ → List ℕ} (h : CacheInv s abandoned kind)
    (classIdx : ℕ) (hpc : s.pc t = .idle) (hpage : page ∈ s.core.owned t) :
    ∃ kind', CacheInv { s with core := s.core.take t page }
      (Function.update abandoned classIdx (page :: abandoned classIdx)) kind' := by
  have hput := h.core.put (some classIdx) s.core.pool hpage h.core.pool ⟨rfl, rfl⟩
  rw [s.places_update] at hput
  refine ⟨_, h.withCore hput fun t' ht' => ⟨rfl, fun p hp => ?_⟩⟩
  have htt : t' ≠ t := by
    rintro rfl
    exact ht' hpc
  simpa [PoolCore.take, htt] using hp

/-- An adopting thread gets the whole list of the class. -/
theorem CacheInv.adoptAll {s : CacheSys} {abandoned : ℕ → List ℕ} (h : CacheInv s abandoned kind)
    (t classIdx : ℕ) :
    ∃ kind', CacheInv { s with core := { s.core with
        owned := Function.update s.core.owned t (abandoned classIdx ++ s.core.owned t) } }
      (Function.update abandoned classIdx []) kind' := by
  have hget := h.core.get t (some classIdx) (abandoned classIdx) [] (List.append_nil _).symm
  rw [s.places_update] at hget
  refine ⟨_, h.withCore hget fun t' _ => ⟨rfl, fun p hp => ?_⟩⟩
  by_cases htt : t' = t
  · subst htt
    simp [hp]
  · simpa [htt] using hp

/-- Changing the counters of the pool keeps the accounting of the pages. -/
theorem CacheInv.withCounters {s : CacheSys} {abandoned : ℕ → List ℕ}
    (h : CacheInv s abandoned kind) (m : PoolMetrics) :
    CacheInv { s with core := { s.core with
      pool := { s.core.pool with metrics := m } } } abandoned kind := by
  refine h.withCore ?_ fun t _ => ⟨rfl, fun p hp => hp⟩
  exact { h.core with
    pool := h.core.pool.withCounters _ _ _
    regions := h.core.regions.congr fun o b e => by cases o <;> rfl }

/-- The section of the pool a step of the cache runs. -/
def CacheSys.coreLabel (s : CacheSys) : CacheLabel → Option PoolLabel
  | .core l => some l
  | .advance t _ =>
    match s.pc t with
    | .divert page => some (.deallocSlab t page)
    | _ => none
  | _ => none

/-- A step of the cache runs a step of the pool, or only moves pages between threads and the
cache. -/
theorem CacheInv.step_core {s s' : CacheSys} {X : Type} {others : X → List ℕ}
    {kind : ℕ → PageKind (Tag (Option X))} (h : CacheInv s others kind) {l : CacheLabel}
    (hstep : cacheStep s l = some s') :
    (∃ l', s.coreLabel l = some l' ∧ poolStep s.core l' = some s'.core) ∨
      (s.coreLabel l = none ∧ s'.core = { s.core with owned := s'.core.owned }) := by
  have hcall {t : ℕ} {spurious : Bool} (hpc : ∀ page, s.pc t ≠ .divert page) :
      s.coreLabel (.advance t spurious) = none := by
    simp [CacheSys.coreLabel]
  cases cacheStep_cases hstep with
  | core hpc hcore => exact .inl ⟨_, rfl, hcore⟩
  | cacheSlab => exact .inr ⟨rfl, rfl⟩
  | uncacheSlab => exact .inr ⟨rfl, rfl⟩
  | ownerWrite => exact .inr ⟨rfl, rfl⟩
  | poolWrite => exact .inr ⟨rfl, rfl⟩
  | full hpc => exact .inr ⟨hcall (by simp [hpc]), rfl⟩
  | loadLen hpc => exact .inr ⟨hcall (by simp [hpc]), rfl⟩
  | @divert t page spurious core hpc hcore =>
    refine .inl ⟨.deallocSlab t page, by simp [CacheSys.coreLabel, hpc], ?_⟩
    have howned : page ∈ s.core.owned t := h.inHand t page (by rw [hpc]; rfl)
    simp only [poolStep, h.apart t (by simp [hpc]), howned, if_true]
    exact hcore
  | loadHead hpc => exact .inr ⟨hcall (by simp [hpc]), rfl⟩
  | writeLink hpc => exact .inr ⟨hcall (by simp [hpc]), rfl⟩
  | push hpc => exact .inr ⟨hcall (by simp [hpc]), rfl⟩
  | pushRetry hpc => exact .inr ⟨hcall (by simp [hpc]), rfl⟩
  | pushCount hpc => exact .inr ⟨hcall (by simp [hpc]), rfl⟩
  | popEmpty hpc => exact .inr ⟨hcall (by simp [hpc]), rfl⟩
  | popLoad hpc => exact .inr ⟨hcall (by simp [hpc]), rfl⟩
  | popRead hpc => exact .inr ⟨hcall (by simp [hpc]), rfl⟩
  | pop hpc => exact .inr ⟨hcall (by simp [hpc]), rfl⟩
  | popGone hpc => exact .inr ⟨hcall (by simp [hpc]), rfl⟩
  | popRetry hpc => exact .inr ⟨hcall (by simp [hpc]), rfl⟩
  | popCount hpc => exact .inr ⟨hcall (by simp [hpc]), rfl⟩

/-- A step of the cache changes no registry. -/
theorem CacheInv.step_registry {s s' : CacheSys} {X : Type} {others : X → List ℕ}
    {kind : ℕ → PageKind (Tag (Option X))} (h : CacheInv s others kind) {l : CacheLabel}
    (hstep : cacheStep s l = some s') :
    s'.core.pool.registry = s.core.pool.registry := by
  rcases h.step_core hstep with ⟨l', -, hcore⟩ | ⟨-, hcore⟩
  · exact poolStep_registry hcore
  · rw [hcore]

/-- A step of the cache keeps the invariant while no exchange uses a stale link. -/
theorem PoolSysInv.cacheStep (h : PoolSysInv s kind entries) {l : CacheLabel} {cache : CacheSys}
    (hfresh : LinkFresh s.cache l) (hstep : cacheStep s.cache l = some cache) :
    ∃ kind', PoolSysInv { s with cache := cache } kind' entries := by
  obtain ⟨kind', hcache⟩ := h.cache.step hfresh hstep
  refine ⟨kind', hcache, ?_, h.registered, h.registeredOnce⟩
  have hreg := h.cache.step_registry hstep
  change RegistryInv cache.core.pool.registry s.heaps entries
  rw [hreg]
  exact h.registry

/-- A change of the pool's counters that leaves the registry keeps the invariant. -/
theorem PoolSysInv.withCounters (h : PoolSysInv s kind entries) {m : PoolMetrics}
    (hreg : m.registry = s.pool.metrics.registry) : PoolSysInv
    (s.setPool { s.pool with metrics := m }) kind entries where
  cache := h.cache.withCounters m
  registry := by
    change RegistryInv m.registry s.heaps entries
    rw [hreg]
    exact h.registry
  registered := h.registered
  registeredOnce := h.registeredOnce

/-- Registering a heap appends it. -/
theorem PoolSysInv.registerHeap (h : PoolSysInv s kind entries) {ptr : ℕ}
    (hnew : ptr ∉ s.registered) {m : PoolMetrics} {heaps : ℕ → HeapMetrics}
    (hregister : s.pool.metrics.registerHeap (Function.update s.heaps ptr .zero) ptr =
      some (m, heaps)) :
    PoolSysInv { s.setMetrics m heaps with
      registered := ptr :: s.registered } kind (entries ++ [ptr]) := by
  have hout : ptr ∉ entries := fun hin => hnew ((h.registered ptr).mp hin)
  have hreg : RegistryInv s.pool.metrics.registry (Function.update s.heaps ptr .zero) entries :=
    h.registry.congr fun h' hh' => by
      rw [Function.update_of_ne]
      rintro rfl
      exact hout hh'
  have hzero (k : Counter) : (Function.update s.heaps ptr HeapMetrics.zero ptr).counter k = 0 := by
    rw [Function.update_self, HeapMetrics.zero_counter]
  exact {
    cache := h.cache.withCounters m
    registry := (hreg.registerHeap hout hzero hregister).1
    registered := fun h' => by simp [h.registered h', or_comm]
    registeredOnce := List.nodup_cons.mpr ⟨hnew, h.registeredOnce⟩ }

/-- Deregistering a registered heap takes it out. -/
theorem PoolSysInv.deregisterHeap (h : PoolSysInv s kind entries) {ptr : ℕ}
    (hmem : ptr ∈ s.registered) {m : PoolMetrics} {heaps : ℕ → HeapMetrics}
    (hderegister : s.pool.metrics.deregisterHeap s.heaps ptr = some (m, heaps)) :
    ∃ entries', PoolSysInv { s.setMetrics m heaps with
      registered := s.registered.erase ptr } kind entries' := by
  obtain ⟨m', heaps', entries', heq, hgone⟩ :=
    RegistryInv.deregisterHeap h.registry ((h.registered ptr).mpr hmem)
  obtain ⟨rfl, rfl⟩ := Prod.mk.inj (Option.some.inj (heq.symm.trans hderegister))
  refine ⟨entries', h.cache.withCounters m', hgone.inv, fun h' => ?_, h.registeredOnce.erase ptr⟩
  change h' ∈ entries' ↔ h' ∈ s.registered.erase ptr
  rw [hgone.mem, h.registered, h.registeredOnce.mem_erase_iff, and_comm]

/-- Every step keeps the invariant while no exchange uses a stale link. -/
theorem PoolSysInv.step (h : PoolSysInv s kind entries) {l : PoolSysLabel} (hfresh : s.Fresh l)
    (hstep : poolSysStep s l = some s') : ∃ kind' entries', PoolSysInv s' kind' entries' := by
  cases poolSysStep_cases hstep with
  | cache hcache =>
    obtain ⟨kind', hinv⟩ := h.cacheStep hfresh hcache
    exact ⟨kind', entries, hinv⟩
  | @abandonSlab t classIdx page hidle howned =>
    obtain ⟨kind', hcache⟩ := h.cache.abandonSlab classIdx hidle.1 howned
    exact ⟨kind', entries, hcache, h.registry, h.registered, h.registeredOnce⟩
  | @countAbandon t classIdx =>
    have hinv := h.withCounters (m := (abandonSlabLocked s.pool classIdx).metrics) rfl
    exact ⟨kind, entries, hinv.cache, hinv.registry, hinv.registered, hinv.registeredOnce⟩
  | @adoptAll t classIdx =>
    obtain ⟨kind', hcache⟩ := h.cache.adoptAll t classIdx
    exact ⟨kind', entries, hcache, h.registry, h.registered, h.registeredOnce⟩
  | @countAdopt t classIdx =>
    have hinv := h.withCounters (m := (incAdoptCountLocked s.pool classIdx).metrics) rfl
    exact ⟨kind, entries, hinv.cache, hinv.registry, hinv.registered, hinv.registeredOnce⟩
  | registerHeap hnew hregister => exact ⟨kind, _, h.registerHeap hnew hregister⟩
  | @countEvent ptr event =>
    refine ⟨kind, entries, h.cache, h.registry.congr fun h' _ => ?_, h.registered, h.registeredOnce⟩
    by_cases hh : h' = ptr
    · subst hh
      simp [onEvent_registryIdx]
    · simp [hh]
  | deregisterHeap hmem hderegister =>
    obtain ⟨entries', hinv⟩ := h.deregisterHeap hmem hderegister
    exact ⟨kind, entries', hinv⟩
  | snapshot => exact ⟨kind, entries, h⟩

end ClMalloc
