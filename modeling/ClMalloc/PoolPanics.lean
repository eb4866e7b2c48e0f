import ClMalloc.PoolChecked
import ClMalloc.PoolSystemGauges

/-!
# No panic under the pool's lock

A step panics when a check of its critical section fails. In every state that a run reaches
without using a stale link no check of the pool's own sections fails, since the accounting of
the pages bounds every list and counter; what is left are the registry of heaps, which asserts
that it has room, and sums and event counts of 64 bits.
-/

namespace ClMalloc

open Transition Checked

/-- A check fails in the critical section of the step. -/
def PoolCore.Panics (c : PoolCore) : PoolLabel → Prop
  | .allocSlab t => c.call t = .idle ∧ allocSlabChecked c.pool = none
  | .allocSlabSlow t => ∃ base, c.call t = .mapped base ∧ allocSlabSlowChecked c.pool base = none
  | .deallocSlab t page =>
    c.call t = .idle ∧ page ∈ c.owned t ∧ deallocSlabChecked c.pool page = none
  | .purgeTake t => c.call t = .purging ∧ purgeTakeChecked c.pool = none
  | .purgeReturn t => ∃ buf, c.call t = .purged [] buf ∧ purgeReturnChecked c.pool buf = none
  | .allocLarge t =>
    ∃ base size, c.call t = .largeMapped base size ∧ allocLargeChecked c.pool size = none
  | .deallocLarge t base size =>
    c.call t = .idle ∧ (base, size) ∈ c.large ∧ deallocLargeChecked c.pool size = none
  | .osAlloc _ _ | .osDealloc _ | .purgePage _ | .osAllocLarge _ _ _ _ => False

/-- A check fails in the critical section of the step. -/
def PoolSys.Panics (s : PoolSys) : PoolSysLabel → Prop
  | .cache (.core l) => s.cache.pc l.thread = .idle ∧ s.cache.core.Panics l
  | .cache (.advance t _) =>
    ∃ page, s.cache.pc t = .divert page ∧ deallocSlabChecked s.pool page = none
  | .countAbandon t classIdx =>
    0 < s.abandoning t classIdx ∧ abandonSlabChecked s.pool classIdx = none
  | .countAdopt t classIdx =>
    0 < s.adopting t classIdx ∧ incAdoptCountChecked s.pool classIdx = none
  | .registerHeap h =>
    h ∉ s.registered ∧ s.pool.metrics.registerHeapChecked (Function.update s.heaps h .zero) h = none
  | .deregisterHeap h => h ∈ s.registered ∧ s.pool.metrics.deregisterHeapChecked s.heaps h = none
  | .snapshot => snapshotChecked s.pool s.heaps = none
  | .cache (.cacheSlab _ _) | .cache (.uncacheSlab _) | .cache (.ownerWrite _ _ _) |
      .cache (.poolWrite _ _ _)
  | .abandonSlab _ _ _ | .adoptAll _ _ | .countEvent _ _ => False

/-- The registry has room for a heap, and the sums of the heaps' counters fit in 64 bits. -/
def PoolSys.CapacityLeft (s : PoolSys) : PoolSysLabel → Prop
  | .registerHeap _ => s.pool.metrics.heapCount < maxHeaps
  | .deregisterHeap _ | .snapshot => s.pool.metrics.registry.SumsFit s.heaps
  | _ => True

/-- No stale link is used, the event counts have room, and no limit of the registry is reached. -/
structure PoolSys.PanicGuard (s : PoolSys) (l : PoolSysLabel) : Prop where
  fresh : s.Fresh l
  room : s.pool.metrics.HasRoom
  capacity : s.CapacityLeft l

/-- Whether the event counts have room can be computed. -/
instance (m : PoolMetrics) : Decidable m.HasRoom :=
  decidable_of_iff (m.poolLockCount + 1 < wordLimit ∧ m.segmentMmapCount + 1 < wordLimit ∧
    m.segmentMunmapCount + 1 < wordLimit ∧ m.slabPurgeCount + 0x20000 < wordLimit ∧
    (∀ classIdx < numClasses, m.abandonCount classIdx + 1 < wordLimit) ∧
    ∀ classIdx < numClasses, m.adoptCount classIdx + 1 < wordLimit)
    ⟨fun ⟨h₁, h₂, h₃, h₄, h₅, h₆⟩ => ⟨h₁, h₂, h₃, h₄, h₅, h₆⟩,
      fun h => ⟨h.locks, h.mmaps, h.munmaps, h.purges, h.abandons, h.adopts⟩⟩

/-- Whether the registry has room can be computed. -/
instance (s : PoolSys) : (l : PoolSysLabel) → Decidable (s.CapacityLeft l)
  | .registerHeap _ => inferInstanceAs (Decidable (s.pool.metrics.heapCount < maxHeaps))
  | .deregisterHeap _ | .snapshot =>
    inferInstanceAs (Decidable (∀ k ∈ summedCounters, s.pool.metrics.registry.dead.counter k +
      (s.pool.metrics.registry.registered.map fun h => (s.heaps h).counter k).sum < wordLimit))
  | .cache _ | .abandonSlab .. | .countAbandon .. | .adoptAll .. | .countAdopt ..
  | .countEvent .. => isTrue trivial

/-- Whether a step is admitted can be computed. -/
instance (s : PoolSys) (l : PoolSysLabel) : Decidable (s.PanicGuard l) :=
  decidable_of_iff (s.Fresh l ∧ s.pool.metrics.HasRoom ∧ s.CapacityLeft l)
    ⟨fun ⟨h₁, h₂, h₃⟩ => ⟨h₁, h₂, h₃⟩, fun h => ⟨h.fresh, h.room, h.capacity⟩⟩

variable {X : Type} {c : PoolCore} {extra : X → List ℕ} {kind : ℕ → PageKind (Tag X)}
  {l : PoolLabel}

/-- What the checks rely on holds in every state that is accounted for. -/
theorem CoreInv.sectionSafe (h : CoreInv c extra kind) (hbooks : CoreBooks c)
    (hroom : c.pool.metrics.HasRoom) :
    SectionSafe c.pool kind where
  inv := h.pool
  ends := fun i hi => by
    have htable : c.Owns .table (c.pool.segments i) segmentExtent := ⟨rfl, i, hi, rfl⟩
    obtain ⟨r, hr, hbase, hextent⟩ := h.regions.holds htable
    have hend := hbooks.bounded r hr
    rw [hbase, hextent] at hend
    exact hend
  slabs := by
    obtain ⟨buffered, hgauges⟩ := hbooks.gauges
    have hle := h.pool.outstandingTotal_le
    have hslabs := hgauges.slabs
    omega
  room := hroom

/-- A page that a thread holds is counted as handed out. -/
theorem CoreInv.outstandingSlabs_pos (h : CoreInv c extra kind) (hbooks : CoreBooks c) {t page : ℕ}
    (hpage : page ∈ c.owned t) : 0 < c.pool.outstandingSlabs := by
  obtain ⟨buffered, hgauges⟩ := hbooks.gauges
  have hlt := h.buffered_lt hgauges.buffers hpage
  have hslabs := hgauges.slabs
  omega

/-- No check fails when a thread returns a page it holds. -/
theorem CoreInv.deallocSlab_ne_none (h : CoreInv c extra kind) (hbooks : CoreBooks c)
    (hroom : c.pool.metrics.HasRoom) {t page : ℕ} (hpage : page ∈ c.owned t) :
    deallocSlabChecked c.pool page ≠ none := by
  have hkind : kind page = .out (.owned t) := ((h.keyed (.owned t)).1 page).mp hpage
  rw [(h.sectionSafe hbooks hroom).deallocSlab hkind (h.outstandingSlabs_pos hbooks hpage)]
  obtain ⟨seg, st', -, -, ⟨heq, -⟩ | ⟨outcome, heq, -⟩⟩ := deallocSlabLocked_spec h.pool hkind
  · simp [heq]
  · simp [heq]

/-- No section of the pool's own panics in a state that is accounted for. -/
theorem CoreInv.not_panics (h : CoreInv c extra kind) (hbooks : CoreBooks c)
    (hroom : c.pool.metrics.HasRoom) :
    ¬c.Panics l := by
  have hsafe := h.sectionSafe hbooks hroom
  obtain ⟨buffered, hgauges⟩ := hbooks.gauges
  cases l with
  | allocSlab t =>
    rintro ⟨-, hpanic⟩
    rw [hsafe.allocSlab] at hpanic
    rcases allocSlabLocked_spec h.pool (.owned t) with ⟨slab, st', heq, -⟩ | ⟨heq, -⟩
    · rw [heq] at hpanic
      cases hpanic
    · rw [heq] at hpanic
      cases hpanic
  | allocSlabSlow t =>
    rintro ⟨base, -, hpanic⟩
    rw [hsafe.allocSlabSlow] at hpanic
    cases hpanic
  | deallocSlab t page =>
    rintro ⟨-, hpage, hpanic⟩
    exact h.deallocSlab_ne_none hbooks hroom hpage hpanic
  | purgeTake t =>
    rintro ⟨-, hpanic⟩
    obtain ⟨st', taken, heq, -⟩ := purgeTakeLocked_spec h.pool (.buffer t)
    rw [hsafe.purgeTake (.buffer t), heq] at hpanic
    cases hpanic
  | purgeReturn t =>
    rintro ⟨buf, hcall, hpanic⟩
    obtain ⟨st', heq, -⟩ := purgeReturnLocked_spec h.pool buf (h.buffer hcall).1 (h.buffer hcall).2
    rw [hsafe.purgeReturn (h.buffer hcall).1 (h.buffer hcall).2, heq] at hpanic
    cases hpanic
  | allocLarge t =>
    rintro ⟨base, size, hcall, hpanic⟩
    have hle := h.largeMapped_le hcall
    have hlt : c.os.heldBytes < wordLimit := h.regions.contract.heldBytes_lt hbooks.bounded
    have hsum : c.pool.largeMappedBytes + size < wordLimit := by
      rw [hgauges.large]
      exact lt_of_le_of_lt hle hlt
    simp [allocLargeChecked, add_eq hsum] at hpanic
  | deallocLarge t base size =>
    rintro ⟨-, hlarge, hpanic⟩
    have hle : size ≤ c.pool.largeMappedBytes := by
      rw [hgauges.large]
      exact List.single_le_sum (by simp) _ (List.mem_map_of_mem (f := Prod.snd) hlarge)
    simp [deallocLargeChecked, sub_eq hle] at hpanic
  | _ => exact id

variable {s s' : PoolSys} {t classIdx : ℕ}

/-- What is still to count is of a size class. -/
def PoolSys.ClassesInRange (s : PoolSys) : Prop :=
  ∀ t classIdx, 0 < s.abandoning t classIdx ∨ 0 < s.adopting t classIdx → classIdx < numClasses

/-- The accounting of the pages, the registry and the books, and the classes of what is still to
count. -/
structure PanicInv (s : PoolSys) : Prop where
  inv : ∃ kind entries, PoolSysInv s kind entries
  books : CoreBooks s.cache.core
  classes : s.ClassesInRange

/-- A new pool. -/
theorem panicInv_new : PanicInv PoolSys.new where
  inv := ⟨_, _, poolSysInv_new⟩
  books := coreBooks_new
  classes := by simp [PoolSys.ClassesInRange, PoolSys.new]

/-- A change at a size class that is in range keeps the others in range. -/
theorem pos_setPending {pending : ℕ → ℕ → ℕ} {n t' c : ℕ}
    (h : 0 < setPending pending t classIdx n t' c) :
    c = classIdx ∨ 0 < pending t' c := by
  rw [setPending_apply] at h
  split at h
  · rename_i hsame
    exact .inl hsame.2
  · exact .inr h

/-- A class in range may have pages to count as abandoned. -/
theorem PoolSys.ClassesInRange.setAbandoning (h : s.ClassesInRange) {t classIdx n : ℕ}
    (hclass : classIdx < numClasses)
    (habandoning : s'.abandoning = setPending s.abandoning t classIdx n)
    (hadopting : s'.adopting = s.adopting) :
    s'.ClassesInRange := by
  rintro t' c (hpos | hpos)
  · rw [habandoning] at hpos
    obtain rfl | hpos := pos_setPending hpos
    · exact hclass
    · exact h t' c (.inl hpos)
  · exact h t' c (.inr (hadopting ▸ hpos))

/-- A class in range may have pages to count as adopted. -/
theorem PoolSys.ClassesInRange.setAdopting (h : s.ClassesInRange) {t classIdx n : ℕ}
    (hclass : classIdx < numClasses) (hadopting : s'.adopting = setPending s.adopting t classIdx n)
    (habandoning : s'.abandoning = s.abandoning) :
    s'.ClassesInRange := by
  rintro t' c (hpos | hpos)
  · exact h t' c (.inl (habandoning ▸ hpos))
  · rw [hadopting] at hpos
    obtain rfl | hpos := pos_setPending hpos
    · exact hclass
    · exact h t' c (.inr hpos)

/-- Every step keeps the classes in range. -/
theorem PoolSys.ClassesInRange.step (h : s.ClassesInRange) {l : PoolSysLabel}
    (hstep : poolSysStep s l = some s') :
    s'.ClassesInRange := by
  cases poolSysStep_cases hstep with
  | cache => exact h
  | abandonSlab _ _ hclass => exact h.setAbandoning hclass rfl rfl
  | countAbandon hpending => exact h.setAbandoning (h _ _ (.inl hpending)) rfl rfl
  | adoptAll _ hclass => exact h.setAdopting hclass rfl rfl
  | countAdopt hpending => exact h.setAdopting (h _ _ (.inr hpending)) rfl rfl
  | registerHeap => exact h
  | countEvent => exact h
  | deregisterHeap => exact h
  | snapshot => exact h

/-- Every step that uses no stale link keeps the invariant. -/
theorem PanicInv.step (h : PanicInv s) {l : PoolSysLabel} (hfresh : s.Fresh l)
    (hstep : poolSysStep s l = some s') :
    PanicInv s' := by
  obtain ⟨kind, entries, hinv⟩ := h.inv
  exact ⟨hinv.step hfresh hstep, hinv.step_books h.books hstep, h.classes.step hstep⟩

/-- An admitted step panics in no state that is accounted for. -/
theorem PanicInv.not_panics (h : PanicInv s) {l : PoolSysLabel} (hguard : s.PanicGuard l) :
    ¬s.Panics l := by
  obtain ⟨kind, entries, hinv⟩ := h.inv
  have hcapacity := hguard.capacity
  cases l with
  | cache l =>
    cases l with
    | core l => exact fun hpanic => hinv.cache.core.not_panics h.books hguard.room hpanic.2
    | advance t spurious =>
      rintro ⟨page, hpc, hpanic⟩
      have howned : page ∈ s.cache.core.owned t := hinv.cache.inHand t page (by rw [hpc]; rfl)
      exact hinv.cache.core.deallocSlab_ne_none h.books hguard.room howned hpanic
    | _ => exact id
  | countAbandon t classIdx =>
    rintro ⟨hpending, hpanic⟩
    rw [hguard.room.abandonSlab (h.classes t classIdx (.inl hpending))] at hpanic
    cases hpanic
  | countAdopt t classIdx =>
    rintro ⟨hpending, hpanic⟩
    rw [hguard.room.incAdoptCount (h.classes t classIdx (.inr hpending))] at hpanic
    cases hpanic
  | registerHeap ptr =>
    rintro ⟨-, hpanic⟩
    have hroom : s.pool.metrics.heapCount < maxHeaps := hcapacity
    rw [PoolMetrics.registerHeapChecked_eq hroom, PoolMetrics.registerHeap, if_pos hroom] at hpanic
    cases hpanic
  | deregisterHeap ptr =>
    rintro ⟨hmem, hpanic⟩
    have hentry := (hinv.registered ptr).mpr hmem
    obtain ⟨m', heaps', entries', heq, -⟩ := RegistryInv.deregisterHeap hinv.registry hentry
    rw [RegistryInv.deregisterHeapChecked_eq hinv.registry hentry hcapacity, heq] at hpanic
    cases hpanic
  | snapshot =>
    intro hpanic
    refine RegistryInv.snapshotChecked_ne_none hinv.registry ?_ hcapacity hpanic
    obtain ⟨buffered, hgauges⟩ := h.books.gauges
    have hle := hinv.cache.core.inUse_le
    have hlt := hinv.cache.core.regions.contract.heldBytes_lt h.books.bounded
    rw [← hgauges.large] at hle
    exact lt_of_le_of_lt hle hlt
  | _ => exact id

/-- No step of a guarded run panics under the lock. -/
theorem sections_never_panic {labels : List PoolSysLabel} {l : PoolSysLabel}
    (hmeets : Meets poolSysStep PoolSys.PanicGuard PoolSys.new (labels ++ [l]))
    (hrun : run poolSysStep PoolSys.new labels = some s) : ¬s.Panics l := by
  obtain ⟨hbefore, hlast⟩ := meets_append.mp hmeets
  have hinv : PanicInv s := by
    refine run_invariant_of_meets ?_ panicInv_new hbefore hrun
    intro s l s' hs hguard hstep
    exact hs.step hguard.fresh hstep
  exact hinv.not_panics (hlast s hrun).1

/-- A heap is registered and deregistered while a thread holds a page. -/
theorem sections_never_panic_deregister : ∃ s, run poolSysStep PoolSys.new
    ((startRun 1 ++ answerRun 1 ++ registerRun 1).map coreStep ++ [.registerHeap 7]) = some s ∧
      s.pool.metrics.heapCount = 1 ∧ ¬s.Panics (.deregisterHeap 7) := by
  have hcheck : (run poolSysStep PoolSys.new
      ((startRun 1 ++ answerRun 1 ++ registerRun 1).map coreStep ++ [.registerHeap 7])).map
        (fun s => decide (s.pool.metrics.heapCount = 1)) = some true := by decide +kernel
  have hmeets : Meets poolSysStep PoolSys.PanicGuard PoolSys.new
      ((startRun 1 ++ answerRun 1 ++ registerRun 1).map coreStep ++ [.registerHeap 7] ++
        [.deregisterHeap 7]) := by
    decide +kernel
  obtain ⟨s, hrun, hs⟩ := Option.map_eq_some_iff.mp hcheck
  exact ⟨s, hrun, of_decide_eq_true hs, sections_never_panic hmeets hrun⟩

/-- The registry can be filled. -/
theorem registry_filled {n : ℕ} (hn : n ≤ maxHeaps) :
    ∃ s, run poolSysStep PoolSys.new ((List.range n).map .registerHeap) = some s ∧
      s.pool.metrics.heapCount = n ∧ ∀ h ∈ s.registered, h < n := by
  induction n with
  | zero => exact ⟨PoolSys.new, rfl, rfl, by simp [PoolSys.new]⟩
  | succ n ih =>
    obtain ⟨s, hrun, hcount, hbelow⟩ := ih (by omega)
    have hnew : n ∉ s.registered := fun hin => (hbelow n hin).ne rfl
    have hroom : s.pool.metrics.heapCount < maxHeaps := by omega
    have hstep : ∃ s', poolSysStep s (.registerHeap n) = some s' ∧
        s'.pool.metrics.heapCount = n + 1 ∧ s'.registered = n :: s.registered := by
      simp only [poolSysStep, hnew, not_false_eq_true, if_true, PoolMetrics.registerHeap, hroom,
        Option.map_some, Option.some.injEq, exists_eq_left']
      exact ⟨congrArg (· + 1) hcount, trivial⟩
    obtain ⟨s', hstep, hcount', hregistered⟩ := hstep
    refine ⟨s', ?_, hcount', ?_⟩
    · rw [List.range_succ, List.map_append, run_append, hrun]
      exact run_cons_eq_some.mpr ⟨s', hstep, rfl⟩
    · rw [hregistered]
      intro h hh
      rcases List.mem_cons.mp hh with rfl | hh
      · exact Nat.lt_succ_self _
      · exact Nat.lt_succ_of_lt (hbelow h hh)

/-- With as many heaps as the registry holds, registering one more panics. -/
theorem registerHeap_panics_fullRegistry : ∃ labels s, run poolSysStep PoolSys.new labels = some s ∧
    s.pool.metrics.heapCount = maxHeaps ∧ s.Panics (.registerHeap maxHeaps) := by
  obtain ⟨s, hrun, hcount, hbelow⟩ := registry_filled le_rfl
  refine ⟨_, s, hrun, hcount, fun hin => (hbelow _ hin).ne rfl, ?_⟩
  have hfull : ¬s.pool.metrics.heapCount < maxHeaps := by omega
  simp [PoolMetrics.registerHeapChecked, require_eq_none hfull]

end ClMalloc
