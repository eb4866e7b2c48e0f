import ClMalloc.PoolSystem
import ClMalloc.PageSpace
import ClMalloc.PoolExhausted
import ClMalloc.PoolReclaim

/-!
# The gauges when nothing runs

A slab pushed on an abandoned list is counted in a later critical section, and so is each
slab taken from one; pages move between the lists and purge buffers. The gauges agree with
the state up to what the threads have still to count, so they agree with it whenever no
thread is in the middle of an operation.
-/

namespace ClMalloc

open Transition Tally

/-- The lists' counters agree with the length of an abandoned list up to what is still to count. -/
def PoolSys.ListCounted (s : PoolSys) (classIdx : ℕ) : Prop :=
  ∃ abandoning adopting, SumsTo (fun t => s.abandoning t classIdx) abandoning ∧
    SumsTo (fun t => s.adopting t classIdx) adopting ∧
    s.pool.metrics.abandonCount classIdx + abandoning =
      s.pool.metrics.adoptCount classIdx + adopting + (s.abandoned classIdx).length

/-- The gauges of the pages and large regions are right, and all that is held ends in the address
space. -/
structure CoreBooks (c : PoolCore) : Prop where
  gauges : ∃ buffered, CoreGauges c buffered
  bounded : c.os.Bounded

/-- The gauges agree with the state up to what the threads have still to count. -/
structure SysGauges (s : PoolSys) : Prop where
  books : CoreBooks s.cache.core
  lists : ∀ classIdx, s.ListCounted classIdx
  balance : s.pool.mapBalance = 0

/-- The books of a new pool. -/
theorem coreBooks_new : CoreBooks PoolCore.new := ⟨⟨0, coreGauges_new⟩, bounded_new⟩

/-- The gauges of a new pool. -/
theorem sysGauges_new : SysGauges PoolSys.new where
  books := coreBooks_new
  lists := fun _ => ⟨0, 0, sumsTo_zero, sumsTo_zero, rfl⟩
  balance := rfl

/-- The step registers every segment it counts as mapped. -/
def PoolSys.MapsCounted (s : PoolSys) : PoolSysLabel → Prop
  | .cache (.core l) => ClMalloc.MapsCounted s.cache.core l
  | _ => True

/-- No stale link is used, and every segment counted as mapped is registered. -/
def PoolSys.GaugeGuard (s : PoolSys) (l : PoolSysLabel) : Prop := s.Fresh l ∧ s.MapsCounted l

/-- Whether a step is admitted can be computed. -/
instance (s : PoolSys) (l : PoolSysLabel) : Decidable (s.GaugeGuard l) :=
  have hmaps : Decidable (s.MapsCounted l) := by
    unfold PoolSys.MapsCounted ClMalloc.MapsCounted
    split <;> try split
    all_goals infer_instance
  inferInstanceAs (Decidable (s.Fresh l ∧ s.MapsCounted l))

variable {s s' : PoolSys} {kind : ℕ → PageKind (Tag (Option ℕ))} {entries : List ℕ}
  {t classIdx page : ℕ}

/-- What a thread has still to count changes at one class of one thread. -/
theorem setPending_apply (pending : ℕ → ℕ → ℕ) (t classIdx n t' c : ℕ) :
    setPending pending t classIdx n t' c = if t' = t ∧ c = classIdx then n else pending t' c := by
  unfold setPending
  by_cases ht : t' = t
  · subst ht
    by_cases hc : c = classIdx
    · subst hc
      simp
    · simp [hc]
  · simp [ht]

/-- What is still to count for one class is not touched by a change at another. -/
theorem setPending_of_ne (pending : ℕ → ℕ → ℕ) (t n : ℕ) {classIdx c : ℕ} (hc : c ≠ classIdx) :
    (fun t' => setPending pending t classIdx n t' c) = fun t' => pending t' c := by
  funext t'
  simp [setPending_apply, hc]

/-- The sum of what is still to count changes by as much as one thread's part of it. -/
theorem SumsTo.setPending {pending : ℕ → ℕ → ℕ} {sum : ℕ}
    (h : SumsTo (fun t => pending t classIdx) sum) (t n : ℕ) :
    ∃ sum', SumsTo (fun t' => setPending pending t classIdx n t' classIdx) sum' ∧
      sum' + pending t classIdx = sum + n := by
  obtain ⟨sum', hsum', hchange⟩ := h.change
    (g := fun t' => ClMalloc.setPending pending t classIdx n t' classIdx) t
    fun t' ht' => by simp [setPending_apply, ht']
  rw [setPending_apply, if_pos ⟨rfl, rfl⟩] at hchange
  exact ⟨sum', hsum', hchange⟩

/-- A list is counted as before when its counters, its length and what is still to count are as
before. -/
theorem PoolSys.ListCounted.congr (h : s.ListCounted classIdx)
    (habandoning : (fun t => s'.abandoning t classIdx) = fun t => s.abandoning t classIdx)
    (hadopting : (fun t => s'.adopting t classIdx) = fun t => s.adopting t classIdx)
    (hlist : s'.abandoned classIdx = s.abandoned classIdx)
    (habandon : s'.pool.metrics.abandonCount classIdx = s.pool.metrics.abandonCount classIdx)
    (hadopt : s'.pool.metrics.adoptCount classIdx = s.pool.metrics.adoptCount classIdx) :
    s'.ListCounted classIdx := by
  unfold PoolSys.ListCounted
  rw [habandoning, hadopting, hlist, habandon, hadopt]
  exact h

/-- The books do not depend on who owns which page, nor on the counters of the pool. -/
theorem CoreBooks.congr {c c' : PoolCore} (h : CoreBooks c) (hcall : c'.call = c.call)
    (hlarge : c'.large = c.large) (hos : c'.os = c.os)
    (hslabs : c'.pool.outstandingSlabs = c.pool.outstandingSlabs)
    (hbytes : c'.pool.largeMappedBytes = c.pool.largeMappedBytes)
    (htotal : c'.pool.outstandingTotal = c.pool.outstandingTotal) : CoreBooks c' := by
  obtain ⟨⟨buffered, hgauges⟩, hbounded⟩ := h
  refine ⟨⟨buffered, ?_, ?_, ?_⟩, ?_⟩
  · rw [hcall]
    exact hgauges.buffers
  · rw [hslabs, htotal]
    exact hgauges.slabs
  · rw [hbytes, hlarge]
    exact hgauges.large
  · rw [hos]
    exact hbounded

/-- A step of the cache keeps the books. -/
theorem CacheInv.step_books {s s' : CacheSys} {X : Type} {others : X → List ℕ}
    {kind : ℕ → PageKind (Tag (Option X))} (h : CacheInv s others kind) (hbooks : CoreBooks s.core)
    {l : CacheLabel} (hstep : ClMalloc.cacheStep s l = some s') :
    CoreBooks s'.core := by
  rcases h.step_core hstep with ⟨l', -, hcore⟩ | ⟨-, hcore⟩
  · obtain ⟨⟨buffered, hgauges⟩, hbounded⟩ := hbooks
    exact ⟨hgauges.step h.core hcore, poolStep_bounded hbounded hcore⟩
  · rw [hcore]
    exact hbooks.congr rfl rfl rfl rfl rfl rfl

/-- Every step keeps the books. -/
theorem PoolSysInv.step_books (h : PoolSysInv s kind entries) (hbooks : CoreBooks s.cache.core)
    {l : PoolSysLabel} (hstep : poolSysStep s l = some s') : CoreBooks s'.cache.core := by
  cases poolSysStep_cases hstep with
  | cache hcache => exact h.cache.step_books hbooks hcache
  | abandonSlab => exact hbooks.congr rfl rfl rfl rfl rfl rfl
  | countAbandon => exact hbooks.congr rfl rfl rfl rfl rfl rfl
  | adoptAll => exact hbooks.congr rfl rfl rfl rfl rfl rfl
  | countAdopt => exact hbooks.congr rfl rfl rfl rfl rfl rfl
  | registerHeap => exact hbooks.congr rfl rfl rfl rfl rfl rfl
  | countEvent => exact hbooks
  | deregisterHeap => exact hbooks.congr rfl rfl rfl rfl rfl rfl
  | snapshot => exact hbooks

/-- A step of the cache counts no list, and registers every segment it counts as mapped. -/
theorem SysGauges.cacheStep (h : SysGauges s) (hinv : PoolSysInv s kind entries) {l : CacheLabel}
    {cache : CacheSys} (hmaps : s.MapsCounted (.cache l))
    (hstep : cacheStep s.cache l = some cache) :
    SysGauges { s with cache := cache } := by
  have hbooks := hinv.cache.step_books h.books hstep
  rcases hinv.cache.step_core hstep with ⟨l', hlabel, hcoreStep⟩ | ⟨-, hsame⟩
  · have hmaps' : ClMalloc.MapsCounted s.cache.core l' := by
      cases l with
      | core l =>
        obtain rfl := Option.some.inj hlabel
        exact hmaps
      | advance t spurious =>
        simp only [CacheSys.coreLabel] at hlabel
        split at hlabel <;> try contradiction
        obtain rfl := Option.some.inj hlabel
        trivial
      | _ => simp [CacheSys.coreLabel] at hlabel
    obtain ⟨habandon, hadopt, hbalance⟩ := hinv.cache.core.step_events hcoreStep
    exact ⟨hbooks, fun c => (h.lists c).congr rfl rfl rfl (congrFun habandon c) (congrFun hadopt c),
      (hbalance hmaps').trans h.balance⟩
  · have hpool : cache.core.pool = s.cache.core.pool := by rw [hsame]
    refine ⟨hbooks, fun c => ?_, (congrArg PoolState.mapBalance hpool).trans h.balance⟩
    exact (h.lists c).congr rfl rfl rfl (congrArg (·.metrics.abandonCount c) hpool)
      (congrArg (·.metrics.adoptCount c) hpool)

/-- A push on an abandoned list is still to count. -/
theorem PoolSys.ListCounted.abandonSlab {c : ℕ} (h : s.ListCounted c) :
    (s.abandonSlab t classIdx page).ListCounted c := by
  by_cases hc : c = classIdx
  · subst hc
    obtain ⟨abandoning, adopting, habandoning, hadopting, hlist⟩ := h
    obtain ⟨sum, hsum, hchange⟩ := SumsTo.setPending habandoning t (s.abandoning t c + 1)
    refine ⟨sum, adopting, hsum, hadopting, ?_⟩
    change s.pool.metrics.abandonCount c + sum = s.pool.metrics.adoptCount c + adopting + _
    simp only [PoolSys.abandonSlab, Function.update_self, List.length_cons]
    omega
  · exact h.congr (setPending_of_ne _ _ _ hc) rfl (Function.update_of_ne hc _ _) rfl rfl

/-- The slabs taken from an abandoned list are all still to count. -/
theorem PoolSys.ListCounted.adoptAll {c : ℕ} (h : s.ListCounted c) :
    (s.adoptAll t classIdx).ListCounted c := by
  by_cases hc : c = classIdx
  · subst hc
    obtain ⟨abandoning, adopting, habandoning, hadopting, hlist⟩ := h
    obtain ⟨sum, hsum, hchange⟩ := SumsTo.setPending hadopting t
      (s.adopting t c + (s.abandoned c).length)
    refine ⟨abandoning, sum, habandoning, hsum, ?_⟩
    change s.pool.metrics.abandonCount c + abandoning = s.pool.metrics.adoptCount c + sum + _
    simp only [PoolSys.adoptAll, Function.update_self, List.length_nil]
    omega
  · exact h.congr rfl (setPending_of_ne _ _ _ hc) (Function.update_of_ne hc _ _) rfl rfl

/-- The section of `abandon_slab` counts one push. -/
theorem PoolSys.ListCounted.countAbandon {c : ℕ} (h : s.ListCounted c)
    (hpending : 0 < s.abandoning t classIdx) :
    PoolSys.ListCounted { s.setPool (abandonSlabLocked s.pool classIdx) with
      abandoning := setPending s.abandoning t classIdx (s.abandoning t classIdx - 1) } c := by
  by_cases hc : c = classIdx
  · subst hc
    obtain ⟨abandoning, adopting, habandoning, hadopting, hlist⟩ := h
    obtain ⟨sum, hsum, hchange⟩ := SumsTo.setPending habandoning t (s.abandoning t c - 1)
    refine ⟨sum, adopting, hsum, hadopting, ?_⟩
    change addAt s.pool.metrics.abandonCount c 1 c + sum = s.pool.metrics.adoptCount c + adopting +
      (s.abandoned c).length
    rw [addAt, Function.update_self]
    omega
  · exact h.congr (setPending_of_ne _ _ _ hc) rfl rfl (Function.update_of_ne hc _ _) rfl

/-- The section of `inc_adopt_count` counts one adopted slab. -/
theorem PoolSys.ListCounted.countAdopt {c : ℕ} (h : s.ListCounted c)
    (hpending : 0 < s.adopting t classIdx) :
    PoolSys.ListCounted { s.setPool (incAdoptCountLocked s.pool classIdx) with
      adopting := setPending s.adopting t classIdx (s.adopting t classIdx - 1) } c := by
  by_cases hc : c = classIdx
  · subst hc
    obtain ⟨abandoning, adopting, habandoning, hadopting, hlist⟩ := h
    obtain ⟨sum, hsum, hchange⟩ := SumsTo.setPending hadopting t (s.adopting t c - 1)
    refine ⟨abandoning, sum, habandoning, hsum, ?_⟩
    change s.pool.metrics.abandonCount c + abandoning =
      addAt s.pool.metrics.adoptCount c 1 c + sum + (s.abandoned c).length
    rw [addAt, Function.update_self]
    omega
  · exact h.congr rfl (setPending_of_ne _ _ _ hc) rfl rfl (Function.update_of_ne hc _ _)

/-- A change of the registry alone keeps the balance. -/
theorem mapBalance_setMetrics {m : PoolMetrics} (heaps : ℕ → HeapMetrics)
    (hmmap : m.segmentMmapCount = s.pool.metrics.segmentMmapCount)
    (hmunmap : m.segmentMunmapCount = s.pool.metrics.segmentMunmapCount) :
    (s.setMetrics m heaps).pool.mapBalance = s.pool.mapBalance := by
  change (m.segmentMmapCount : ℤ) - m.segmentMunmapCount - s.pool.segmentCount = _
  rw [hmmap, hmunmap]
  rfl

/-- Registering a heap changes the registry alone. -/
theorem PoolMetrics.registerHeap_events {m m' : PoolMetrics} {heaps heaps' : ℕ → HeapMetrics}
    {ptr : ℕ} (h : m.registerHeap heaps ptr = some (m', heaps')) :
    m'.abandonCount = m.abandonCount ∧ m'.adoptCount = m.adoptCount ∧
      m'.segmentMmapCount = m.segmentMmapCount ∧ m'.segmentMunmapCount = m.segmentMunmapCount := by
  unfold PoolMetrics.registerHeap at h
  split at h <;> try contradiction
  cases h
  exact ⟨rfl, rfl, rfl, rfl⟩

/-- Deregistering a heap changes the registry and the counters of the dead heaps alone. -/
theorem PoolMetrics.deregisterHeap_events {m m' : PoolMetrics} {heaps heaps' : ℕ → HeapMetrics}
    {ptr : ℕ} (h : m.deregisterHeap heaps ptr = some (m', heaps')) :
    m'.abandonCount = m.abandonCount ∧ m'.adoptCount = m.adoptCount ∧
      m'.segmentMmapCount = m.segmentMmapCount ∧ m'.segmentMunmapCount = m.segmentMunmapCount := by
  unfold PoolMetrics.deregisterHeap at h
  simp only at h
  repeat' split at h
  all_goals
    first
    | contradiction
    | cases h
      exact ⟨rfl, rfl, rfl, rfl⟩

/-- Every step keeps the gauges while every segment counted as mapped is registered. -/
theorem SysGauges.step (h : SysGauges s) (hinv : PoolSysInv s kind entries) {l : PoolSysLabel}
    (hmaps : s.MapsCounted l) (hstep : poolSysStep s l = some s') : SysGauges s' := by
  have hbooks := hinv.step_books h.books hstep
  cases poolSysStep_cases hstep with
  | cache hcache => exact h.cacheStep hinv hmaps hcache
  | abandonSlab => exact ⟨hbooks, fun c => (h.lists c).abandonSlab, h.balance⟩
  | countAbandon hpending => exact ⟨hbooks, fun c => (h.lists c).countAbandon hpending, h.balance⟩
  | adoptAll => exact ⟨hbooks, fun c => (h.lists c).adoptAll, h.balance⟩
  | countAdopt hpending => exact ⟨hbooks, fun c => (h.lists c).countAdopt hpending, h.balance⟩
  | @registerHeap ptr m heaps _ hregister =>
    obtain ⟨habandon, hadopt, hmmap, hmunmap⟩ := PoolMetrics.registerHeap_events hregister
    exact ⟨hbooks, fun c => (h.lists c).congr rfl rfl rfl (congrFun habandon c) (congrFun hadopt c),
      (mapBalance_setMetrics heaps hmmap hmunmap).trans h.balance⟩
  | countEvent => exact ⟨hbooks, fun c => (h.lists c).congr rfl rfl rfl rfl rfl, h.balance⟩
  | @deregisterHeap ptr m heaps _ hderegister =>
    obtain ⟨habandon, hadopt, hmmap, hmunmap⟩ := PoolMetrics.deregisterHeap_events hderegister
    exact ⟨hbooks, fun c => (h.lists c).congr rfl rfl rfl (congrFun habandon c) (congrFun hadopt c),
      (mapBalance_setMetrics heaps hmmap hmunmap).trans h.balance⟩
  | snapshot => exact h

/-- The accounting of the pages and the registry, and the gauges beside them. -/
def GaugedSys (s : PoolSys) : Prop := SysGauges s ∧ ∃ kind entries, PoolSysInv s kind entries

/-- Every admitted step keeps the gauges and what they count. -/
theorem GaugedSys.step (h : GaugedSys s) {l : PoolSysLabel} (hguard : s.GaugeGuard l)
    (hstep : poolSysStep s l = some s') :
    GaugedSys s' := by
  obtain ⟨hgauges, kind, entries, hinv⟩ := h
  exact ⟨hgauges.step hinv hguard.2 hstep, hinv.step hguard.1 hstep⟩

/-- No thread is in an operation, and everything abandoned or adopted has been counted. -/
structure PoolSys.Quiet (s : PoolSys) : Prop where
  idle : ∀ t, s.Idle t
  abandoning : ∀ t classIdx, s.abandoning t classIdx = 0
  adopting : ∀ t classIdx, s.adopting t classIdx = 0

/-- Each gauge is what it stands for, and a snapshot reports the address space held from the page
allocator. -/
structure PoolSys.GaugesRight (s : PoolSys) : Prop where
  segments : s.pool.metrics.segmentMmapCount = s.pool.metrics.segmentMunmapCount +
    s.pool.segmentCount
  slabs : s.pool.outstandingSlabs = s.pool.outstandingTotal
  large : s.pool.largeMappedBytes = (s.cache.core.large.map Prod.snd).sum
  lists : ∀ classIdx, s.pool.metrics.abandonCount classIdx =
    s.pool.metrics.adoptCount classIdx + (s.abandoned classIdx).length
  mapped : ∃ snapshot, s.pool.snapshot s.heaps = some snapshot ∧
    snapshot.mapped = s.cache.core.os.heldBytes

/-- In a quiet state nothing is left to count. -/
theorem GaugedSys.gaugesRight (h : GaugedSys s) (hquiet : s.Quiet) : s.GaugesRight := by
  obtain ⟨hgauges, kind, entries, hinv⟩ := h
  obtain ⟨buffered, hcore⟩ := hgauges.books.gauges
  have hcalls (t : ℕ) : s.cache.core.call t = .idle := (hquiet.idle t).2
  have hbuffered : buffered = 0 := hcore.buffers.eq_zero
    fun t => by simp [hcalls t, PoolCall.buffer]
  have hslabs : s.pool.outstandingSlabs + buffered = s.pool.outstandingTotal := hcore.slabs
  have hbalance := hgauges.balance
  obtain ⟨snapshot, hsnapshot, -, -, -, hmapped⟩ := PoolState.snapshot_eq hinv.registry
  have hheld := hinv.cache.core.heldBytes_eq hcalls
  refine ⟨?_, by omega, hcore.large, fun classIdx => ?_, snapshot, hsnapshot, ?_⟩
  · unfold PoolState.mapBalance at hbalance
    omega
  · obtain ⟨abandoning, adopting, habandoning, hadopting, hlist⟩ := hgauges.lists classIdx
    have habandoned := habandoning.eq_zero fun t => hquiet.abandoning t classIdx
    have hadopted := hadopting.eq_zero fun t => hquiet.adopting t classIdx
    omega
  · rw [hmapped, hheld, ← hcore.large]
    refine u64_of_lt ?_
    have hlt := hinv.cache.core.regions.contract.heldBytes_lt hgauges.books.bounded
    rw [hheld, ← hcore.large] at hlt
    exact hlt

/-- In every quiet state of a guarded run the gauges are right, as long as the event counts stay
below `2 ^ 64`. -/
theorem gauges_right_of_guarded {labels : List PoolSysLabel}
    (hmeets : Meets poolSysStep PoolSys.GaugeGuard PoolSys.new labels)
    (hrun : run poolSysStep PoolSys.new labels = some s) (hquiet : s.Quiet) : s.GaugesRight := by
  have hgauged : GaugedSys s := by
    refine run_invariant_of_meets ?_ ?_ hmeets hrun
    · intro s l s' hs hguard hstep
      exact hs.step hguard hstep
    · exact ⟨sysGauges_new, _, _, poolSysInv_new⟩
  exact hgauged.gaugesRight hquiet

/-- The pool used by its critical sections alone. -/
def PoolSys.ofCore (c : PoolCore) : PoolSys :=
  { PoolSys.new with cache := { CacheSys.new with core := c } }

/-- The label of a critical section. -/
def coreStep (l : PoolLabel) : PoolSysLabel := .cache (.core l)

/-- The steps of the critical sections are steps of the system. -/
theorem poolSysStep_ofCore {c c' : PoolCore} {l : PoolLabel} (h : poolStep c l = some c') :
    poolSysStep (.ofCore c) (coreStep l) = some (.ofCore c') := by
  have hidle : (PoolSys.ofCore c).cache.pc l.thread = .idle := rfl
  simp only [poolSysStep, coreStep, ClMalloc.cacheStep, hidle, if_true]
  change Option.map _ (Option.map _ (poolStep c l)) = _
  rw [h]
  rfl

/-- A run of the critical sections is a run of the system. -/
theorem run_ofCore {c : PoolCore} {labels : List PoolLabel}
    (h : run poolStep PoolCore.new labels = some c) :
    run poolSysStep PoolSys.new (labels.map coreStep) = some (.ofCore c) :=
  run_map (f := coreStep) (g := PoolSys.ofCore) (fun _ _ _ => poolSysStep_ofCore) h

/-- No thread in a critical section is no thread in an operation. -/
theorem quiet_ofCore {c : PoolCore} (h : ∀ t, c.call t = .idle) : (PoolSys.ofCore c).Quiet where
  idle := fun t => ⟨rfl, h t⟩
  abandoning := fun _ _ => rfl
  adopting := fun _ _ => rfl

/-- The thread of the step and the class it counts for, where it has them, are beneath the
bounds. -/
def PoolSysLabel.Within (threads classes : ℕ) : PoolSysLabel → Prop
  | .cache l => l.thread < threads
  | .abandonSlab t c _ | .countAbandon t c | .adoptAll t c | .countAdopt t c =>
    t < threads ∧ c < classes
  | .registerHeap _ | .countEvent _ _ | .deregisterHeap _ | .snapshot => True

/-- Whether a step is beneath the bounds can be computed. -/
instance (threads classes : ℕ) : (l : PoolSysLabel) → Decidable (l.Within threads classes)
  | .cache l => inferInstanceAs (Decidable (l.thread < threads))
  | .abandonSlab t c _ | .countAbandon t c | .adoptAll t c | .countAdopt t c =>
    inferInstanceAs (Decidable (t < threads ∧ c < classes))
  | .registerHeap _ | .countEvent _ _ | .deregisterHeap _ | .snapshot => isTrue trivial

/-- Beyond the bounds no thread is in an operation and nothing is left to count. -/
structure PoolSys.RestsBeyond (s : PoolSys) (threads classes : ℕ) : Prop where
  idle : ∀ t, threads ≤ t → s.Idle t
  counted : ∀ t c, threads ≤ t ∨ classes ≤ c → s.abandoning t c = 0 ∧ s.adopting t c = 0

/-- Steps beneath the bounds change nothing beyond them. -/
theorem PoolSys.RestsBeyond.step {threads classes : ℕ} {l : PoolSysLabel}
    (h : s.RestsBeyond threads classes) (hl : l.Within threads classes)
    (hstep : poolSysStep s l = some s') : s'.RestsBeyond threads classes := by
  have hkept {t' c' n t c : ℕ} {pending : ℕ → ℕ → ℕ} (hin : t' < threads ∧ c' < classes)
      (hout : threads ≤ t ∨ classes ≤ c) (hpending : pending t c = 0) :
      setPending pending t' c' n t c = 0 := by
    rw [setPending_apply, if_neg (by omega), hpending]
  cases poolSysStep_cases hstep with
  | cache hcache =>
    refine ⟨fun t ht => ?_, h.counted⟩
    have hne : t ≠ _ := (Nat.lt_of_lt_of_le hl ht).ne'
    exact ⟨(cacheStep_frame hne hcache).1.trans (h.idle t ht).1,
      (cacheStep_frame_call hne hcache).trans (h.idle t ht).2⟩
  | abandonSlab =>
    exact ⟨h.idle, fun t c hout => ⟨hkept hl hout (h.counted t c hout).1, (h.counted t c hout).2⟩⟩
  | countAbandon =>
    exact ⟨h.idle, fun t c hout => ⟨hkept hl hout (h.counted t c hout).1, (h.counted t c hout).2⟩⟩
  | adoptAll =>
    exact ⟨h.idle, fun t c hout => ⟨(h.counted t c hout).1, hkept hl hout (h.counted t c hout).2⟩⟩
  | countAdopt =>
    exact ⟨h.idle, fun t c hout => ⟨(h.counted t c hout).1, hkept hl hout (h.counted t c hout).2⟩⟩
  | registerHeap => exact ⟨h.idle, h.counted⟩
  | countEvent => exact ⟨h.idle, h.counted⟩
  | deregisterHeap => exact ⟨h.idle, h.counted⟩
  | snapshot => exact h

/-- A system that rests beneath the bounds and beyond them is quiet. -/
theorem PoolSys.RestsBeyond.quiet {threads classes : ℕ} (h : s.RestsBeyond threads classes)
    (hidle : ∀ t ∈ List.range threads, s.Idle t)
    (hcounted : ∀ t ∈ List.range threads,
      ∀ c ∈ List.range classes, s.abandoning t c = 0 ∧ s.adopting t c = 0) :
    s.Quiet := by
  have hcounted' (t c : ℕ) : s.abandoning t c = 0 ∧ s.adopting t c = 0 := by
    by_cases hout : threads ≤ t ∨ classes ≤ c
    · exact h.counted t c hout
    · push Not at hout
      exact hcounted t (List.mem_range.mpr hout.1) c (List.mem_range.mpr hout.2)
  refine ⟨fun t => ?_, fun t c => (hcounted' t c).1, fun t c => (hcounted' t c).2⟩
  by_cases ht : threads ≤ t
  · exact h.idle t ht
  · exact hidle t (List.mem_range.mpr (not_le.mp ht))

/-- Three threads use up three segments. Thread 2 caches a page and abandons two, thread 1 adopts
these and abandons one again, and a large region is mapped; a purge runs and two segments are
released. -/
def gaugedRun : List PoolSysLabel :=
  handOutRun.map coreStep ++ (pushRun 2 0x3050000).map .cache ++
    [.registerHeap 7, .abandonSlab 2 7 0x3060000, .abandonSlab 2 7 0x3070000, .countAbandon 2 7,
      .countAbandon 2 7, .adoptAll 1 7, .countAdopt 1 7, .countEvent 7 (.alloc 7 128),
      .countAdopt 1 7, .abandonSlab 1 7 0x3060000, .countAbandon 1 7] ++
    [PoolLabel.osAllocLarge 0 0x40000 4096 (some 0x8000000), .allocLarge 0].map coreStep ++
    (startPurgeRun ++ endPurgeRun).map coreStep ++ [.deregisterHeap 7]

/-- The gauges are right with one segment left, a page cached, one abandoned and a large region in
use. -/
theorem gauges_right_gaugedRun :
    ∃ s, run poolSysStep PoolSys.new gaugedRun = some s ∧ s.pool.segmentCount = 1 ∧
    s.pool.metrics.segmentMmapCount = 3 ∧ s.pool.outstandingSlabs = 29 ∧
      s.pool.largeMappedBytes = 0x40000 ∧
    s.pool.metrics.abandonCount 7 = 3 ∧ s.pool.metrics.adoptCount 7 = 2 ∧ s.GaugesRight := by
  have hcheck : (run poolSysStep PoolSys.new gaugedRun).map
      (fun s => decide (s.pool.segmentCount = 1 ∧
      s.pool.metrics.segmentMmapCount = 3 ∧ s.pool.outstandingSlabs = 29 ∧
        s.pool.largeMappedBytes = 0x40000 ∧
      s.pool.metrics.abandonCount 7 = 3 ∧
        s.pool.metrics.adoptCount 7 = 2)) = some true := by decide +kernel
  have hcheckQuiet : (run poolSysStep PoolSys.new gaugedRun).map
      (fun s => decide ((∀ t ∈ List.range 3, s.Idle t) ∧ ∀ t ∈ List.range 3,
        ∀ c ∈ List.range 8, s.abandoning t c = 0 ∧ s.adopting t c = 0)) = some true := by
    decide +kernel
  have hwithin : ∀ l ∈ gaugedRun, l.Within 3 8 := by decide +kernel
  have hmeets : Meets poolSysStep PoolSys.GaugeGuard PoolSys.new gaugedRun := by decide +kernel
  obtain ⟨s, hrun, hs⟩ := Option.map_eq_some_iff.mp hcheck
  obtain ⟨hcount, hmmap, hslabs, hlarge, habandoned, hadopted⟩ := of_decide_eq_true hs
  have hbeyond : s.RestsBeyond 3 8 := run_invariant_of_labels
    (I := fun s : PoolSys => s.RestsBeyond 3 8)
    (fun l hl _ _ hrests hstep => hrests.step (hwithin l hl) hstep)
    ⟨fun _ _ => ⟨rfl, rfl⟩, fun _ _ _ => ⟨rfl, rfl⟩⟩ hrun
  rw [hrun] at hcheckQuiet
  obtain ⟨hidle, hcounted⟩ := of_decide_eq_true (Option.some.inj hcheckQuiet)
  exact ⟨s, hrun, hcount, hmmap, hslabs, hlarge, habandoned, hadopted,
    gauges_right_of_guarded hmeets hrun (hbeyond.quiet hidle hcounted)⟩

/-- More threads map than the table has room for: one mapping more is counted than there are
segments. -/
theorem gauges_wrong_overfullTable :
    ∃ labels s, run poolSysStep PoolSys.new labels = some s ∧ s.Quiet ∧
    s.pool.metrics.segmentMmapCount = maxSegments + 1 ∧ s.pool.metrics.segmentMunmapCount = 0 ∧
    s.pool.segmentCount = maxSegments ∧ ¬s.GaugesRight := by
  obtain ⟨c₀, c₁, c₂, c₃, hreached, -, hstart, -, -, hsteps, -, hfinish, -, hidle, hcount,
    hmmap, hmunmap⟩ :=
    overfull_run
  generalize startRun maxSegments = before at hreached
  generalize answerRun (maxSegments + 1) ++ registerRun maxSegments ++
    [PoolLabel.allocSlabSlow maxSegments] = during at hsteps
  have hrun : run poolStep PoolCore.new
      (before ++ [.allocSlab maxSegments] ++ during ++ [.osDealloc maxSegments]) = some c₃ := by
    have hstart' : run poolStep c₀ [.allocSlab maxSegments] = some c₁ :=
      run_cons_eq_some.mpr ⟨c₁, hstart, rfl⟩
    rw [run_append, run_append, run_append, hreached, Option.bind_some, hstart',
      Option.bind_some, hsteps]
    exact run_cons_eq_some.mpr ⟨c₃, hfinish, rfl⟩
  have hsys := run_ofCore hrun
  refine ⟨_, _, hsys, quiet_ofCore hidle, hmmap, hmunmap, hcount, fun hright => ?_⟩
  have hsegments : c₃.pool.metrics.segmentMmapCount = c₃.pool.metrics.segmentMunmapCount +
      c₃.pool.segmentCount :=
    hright.segments
  rw [hmmap, hmunmap, hcount, Nat.zero_add] at hsegments
  exact absurd hsegments (Nat.succ_ne_self _)

end ClMalloc
