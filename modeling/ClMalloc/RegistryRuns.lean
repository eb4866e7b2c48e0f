import ClMalloc.GlobalMetrics

/-!
# Runs of the heap registry

Heaps are registered when they are created and deregistered when they end, each counts its
own events in between, and snapshots are taken in any order. The counters of a heap that has
ended are kept as it left them, so that a sum over all heaps ever registered can be stated,
and so is what was counted before any reduction to 64 bits. A heap that ended may leave its
place to a later one.
-/

namespace ClMalloc

open Intrusive Transition

/-- The heaps with the pool, the registered heaps, what the heaps that ended had counted, what was
counted in all, and the snapshots taken, newest first. -/
structure RegistryRun where
  sys : HeapSys
  live : List ℕ
  retired : List HeapMetrics
  counted : Counter → ℕ
  snapshots : List MetricsSnapshot

/-- A heap is created and registered, counts an event, or is deregistered at its end; or a snapshot
is taken. -/
inductive RegistryLabel
  | register (h : ℕ)
  | count (h : ℕ) (event : CountEvent)
  | deregister (h : ℕ)
  | snapshot

/-- A heap is registered once, counts while it is registered, and is deregistered once. -/
def registryStep (r : RegistryRun) : RegistryLabel → Option RegistryRun
  | .register h =>
    if h ∉ r.live then
      ((r.sys.newHeap h).registerHeap h).map fun sys => { r with sys := sys, live := h :: r.live }
    else none
  | .count h event =>
    if h ∈ r.live ∧ event.InRange then
      some { r with sys := r.sys.count h (·.onEvent event),
                    counted := fun k => r.counted k + event.amount k }
    else none
  | .deregister h =>
    if h ∈ r.live then
      (r.sys.deregisterHeap h).map fun sys =>
        { r with sys := sys, live := r.live.erase h,
                 retired := (r.sys.heap h).metrics :: r.retired }
    else none
  | .snapshot => r.sys.snapshot.map fun snapshot => { r with snapshots := snapshot :: r.snapshots }

/-- A new pool and no heap yet. -/
def RegistryRun.new (headers : ℕ → SlabHeader) (next : ℕ → Option ℕ) (links : Links ℕ QueueHead) :
    RegistryRun :=
  ⟨.new headers next links, [], [], fun _ => 0, []⟩

/-- The sum of a counter over all heaps ever registered. -/
def RegistryRun.sum (r : RegistryRun) (k : Counter) : ℕ :=
  (r.retired.map fun m => m.counter k).sum +
    (r.live.map fun h => (r.sys.heap h).metrics.counter k).sum

/-- The registry lists the registered heaps, and the snapshots sum what all heaps counted. -/
structure RegistryRun.Sound (r : RegistryRun) : Prop where
  listed : ∀ h, h ∈ r.live ↔
    ∃ i < r.sys.pool.core.pool.metrics.heapCount, r.sys.pool.core.pool.metrics.heapPtrs i = some h
  once : ∀ i j h, r.sys.pool.core.pool.metrics.heapPtrs i = some h →
    r.sys.pool.core.pool.metrics.heapPtrs j = some h → i = j
  indexed : ∀ i h, r.sys.pool.core.pool.metrics.heapPtrs i = some h →
    (r.sys.heap h).metrics.registryIdx = i
  filled : ∀ i < r.sys.pool.core.pool.metrics.heapCount,
    (r.sys.pool.core.pool.metrics.heapPtrs i).isSome = true
  cleared : ∀ i, r.sys.pool.core.pool.metrics.heapCount ≤ i →
    r.sys.pool.core.pool.metrics.heapPtrs i = none
  enters : ∀ h, r.sys.pool.core.pool.metrics.heapCount < maxHeaps →
    ((r.sys.newHeap h).registerHeap h).isSome = true
  leaves : ∀ h ∈ r.live, (r.sys.deregisterHeap h).isSome = true
  sums : ∃ snapshot, r.sys.snapshot = some snapshot ∧ ∀ k, snapshot.counter k = u64 (r.sum k)
  exactly : ∀ k, r.counted k < 0x10000000000000000 → r.sum k = r.counted k
  grows : ∀ k, r.counted k < 0x10000000000000000 →
    r.snapshots.Pairwise fun newer older => older.counter k ≤ newer.counter k

/-- What the runs keep: the registry in order, its total the sum over all heaps, which is what was
counted modulo 64 bits. -/
structure RegistryRunInv (r : RegistryRun) (entries : List ℕ) : Prop where
  registry : RegistryInv r.sys.books.registry r.sys.books.metrics entries
  live : ∀ h, h ∈ entries ↔ h ∈ r.live
  liveOnce : r.live.Nodup
  total : ∀ k, r.sys.books.total entries k = u64 (r.sum k)
  counted : ∀ k, u64 (r.sum k) = u64 (r.counted k)
  le : ∀ k, r.sum k ≤ r.counted k
  past : ∀ k, ∀ snapshot ∈ r.snapshots, snapshot.counter k ≤ r.counted k
  grows : ∀ k, r.counted k < 0x10000000000000000 →
    r.snapshots.Pairwise fun newer older => older.counter k ≤ newer.counter k

variable {r r' : RegistryRun} {entries : List ℕ} {h : ℕ}

/-- As long as nothing wrapped the sum is what was counted. -/
theorem RegistryRunInv.exactly (hinv : RegistryRunInv r entries) {k : Counter}
    (hfits : r.counted k < 0x10000000000000000) :
    r.sum k = r.counted k := by
  have hmod := hinv.counted k
  have hle := hinv.le k
  rwa [u64_of_lt hfits, u64_of_lt (by omega)] at hmod

/-- Counting for a registered heap adds to the sum, up to a wrap. -/
theorem RegistryRun.sum_count (r' : RegistryRun) (hnodup : r.live.Nodup) (hmem : h ∈ r.live)
    (event : CountEvent) (k : Counter) (hr' : r'.retired = r.retired) (hlive : r'.live = r.live)
    (hsys : r'.sys = r.sys.count h (·.onEvent event)) :
    u64 (r'.sum k) = u64 (r.sum k + event.amount k) ∧ r'.sum k ≤ r.sum k + event.amount k := by
  have hperm := List.perm_cons_erase hmem
  have hself : (r'.sys.heap h).metrics = (r.sys.heap h).metrics.onEvent event := by
    simp [hsys, HeapSys.count, HeapSys.setHeap]
  have hrest : ((r.live.erase h).map fun h' => (r'.sys.heap h').metrics.counter k) =
      (r.live.erase h).map fun h' => (r.sys.heap h').metrics.counter k := by
    refine List.map_congr_left fun h' hh' => ?_
    simp [hsys, HeapSys.count, HeapSys.setHeap, (hnodup.mem_erase_iff.mp hh').1]
  have hmod := onEvent_counter event (r.sys.heap h).metrics k
  have hle := onEvent_counter_le event (r.sys.heap h).metrics k
  simp only [RegistryRun.sum, hr', hlive, (hperm.map _).sum_eq, List.map_cons,
    List.sum_cons, hrest, hself]
  unfold u64 at *
  omega

/-- Before the first heap nothing is counted. -/
theorem registryRunInv_new (headers : ℕ → SlabHeader) (next : ℕ → Option ℕ)
    (links : Links ℕ QueueHead) :
    RegistryRunInv (RegistryRun.new headers next links) [] where
  registry := registryInv_new _
  live := by simp [RegistryRun.new]
  liveOnce := List.nodup_nil
  total := fun k => by cases k <;> rfl
  counted := fun _ => rfl
  le := fun _ => le_rfl
  past := by simp [RegistryRun.new]
  grows := fun _ _ => List.Pairwise.nil

/-- A new heap is appended and adds nothing to the sums. -/
theorem RegistryRunInv.register (hinv : RegistryRunInv r entries) (hnew : h ∉ r.live)
    {sys : HeapSys} (hregister : (r.sys.newHeap h).registerHeap h = some sys) :
    RegistryRunInv { r with sys := sys, live := h :: r.live } (entries ++ [h]) := by
  have hout : h ∉ entries := fun hin => hnew ((hinv.live h).mp hin)
  obtain ⟨hreg, htotal, hother, hzero⟩ := HeapSys.newHeap_registerHeap hinv.registry hout hregister
  have hsum (k : Counter) : RegistryRun.sum { r with
      sys := sys, live := h :: r.live } k = r.sum k := by
    have hrest : (r.live.map fun h' => (sys.heap h').metrics.counter k) =
        r.live.map fun h' => (r.sys.heap h').metrics.counter k := by
      refine List.map_congr_left fun h' hh' => hother h' ?_ k
      rintro rfl
      exact hnew hh'
    simp only [RegistryRun.sum, List.map_cons, List.sum_cons, hzero, hrest, Nat.zero_add]
  exact {
    registry := hreg
    live := fun h' => by simp [hinv.live h', or_comm]
    liveOnce := List.nodup_cons.mpr ⟨hnew, hinv.liveOnce⟩
    total := fun k => by
      rw [hsum, ← hinv.total k]
      exact htotal k
    counted := fun k => by
      rw [hsum]
      exact hinv.counted k
    le := fun k => by
      rw [hsum]
      exact hinv.le k
    past := hinv.past
    grows := hinv.grows }

/-- A registered heap counts: the sums and what was counted grow by the same amounts, modulo 64
bits. -/
theorem RegistryRunInv.count (hinv : RegistryRunInv r entries) (hmem : h ∈ r.live)
    (event : CountEvent) :
    RegistryRunInv { r with
      sys := r.sys.count h (·.onEvent event), counted :=
        fun k => r.counted k + event.amount k } entries := by
  have hsum (k : Counter) := RegistryRun.sum_count { r with
    sys := r.sys.count h (·.onEvent event), counted := fun k => r.counted k + event.amount k }
    hinv.liveOnce hmem event k rfl rfl rfl
  have hbooks : (r.sys.count h (·.onEvent event)).books = r.sys.books.count h (·.onEvent event) :=
    HeapSys.count_books _ _ _
  refine ⟨?_, hinv.live, hinv.liveOnce, fun k => ?_, fun k => ?_, fun k => ?_,
    fun k snapshot hin => ?_, fun k hfits => ?_⟩
  · change RegistryInv (r.sys.count h _).books.registry (r.sys.count h _).books.metrics entries
    rw [hbooks]
    exact hinv.registry.count_books (onEvent_registryIdx event) h
  · change (r.sys.count h _).books.total entries k = _
    rw [(hsum k).1, hbooks, hinv.registry.total_count ((hinv.live h).mpr hmem)
      (fun m k => onEvent_counter event m k) k, hinv.total, u64_u64_add]
  · rw [(hsum k).1, ← u64_u64_add, hinv.counted, u64_u64_add]
  · exact (hsum k).2.trans (Nat.add_le_add_right (hinv.le k) _)
  · exact (hinv.past k snapshot hin).trans (Nat.le_add_right _ _)
  · exact hinv.grows k (lt_of_le_of_lt (Nat.le_add_right _ _) hfits)

/-- A heap that is deregistered passes from the registered ones to those that ended. -/
theorem RegistryRunInv.deregister (hinv : RegistryRunInv r entries) (hmem : h ∈ r.live)
    {sys : HeapSys} (hderegister : r.sys.deregisterHeap h = some sys) :
    ∃ entries', RegistryRunInv { r with
      sys := sys, live := r.live.erase h, retired :=
        (r.sys.heap h).metrics :: r.retired } entries' := by
  obtain ⟨sys', entries', heq, hreg, hrest, htotal, hcounter⟩ :=
    HeapSys.deregisterHeap_registered hinv.registry ((hinv.live h).mpr hmem)
  cases hderegister.symm.trans heq
  have hsum (k : Counter) : RegistryRun.sum { r with
      sys := sys, live := r.live.erase h, retired :=
        (r.sys.heap h).metrics :: r.retired } k = r.sum k := by
    simp only [RegistryRun.sum, hcounter, List.map_cons, List.sum_cons,
      ((List.perm_cons_erase hmem).map _).sum_eq]
    omega
  refine ⟨entries', {
    registry := hreg
    live := fun h' => ?_
    liveOnce := hinv.liveOnce.erase h
    total := fun k => ?_
    counted := fun k => ?_
    le := fun k => ?_
    past := hinv.past
    grows := hinv.grows }⟩
  · rw [hrest, hinv.liveOnce.mem_erase_iff, hinv.live, and_comm]
  · rw [hsum, ← hinv.total k]
    exact htotal k
  · rw [hsum]
    exact hinv.counted k
  · rw [hsum]
    exact hinv.le k

/-- A snapshot sums every counter over all heaps ever registered. -/
theorem RegistryRunInv.snapshot (hinv : RegistryRunInv r entries) :
    ∃ snapshot, r.sys.snapshot = some snapshot ∧ ∀ k, snapshot.counter k = u64 (r.sum k) := by
  obtain ⟨snapshot, heq, hsum, -⟩ := HeapSys.snapshot_eq hinv.registry
  exact ⟨snapshot, heq, fun k => (hsum k).trans (hinv.total k)⟩

/-- A snapshot is no less than those before it as long as nothing wrapped. -/
theorem RegistryRunInv.takeSnapshot (hinv : RegistryRunInv r entries) {snapshot : MetricsSnapshot}
    (hsnapshot : r.sys.snapshot = some snapshot) :
    RegistryRunInv { r with snapshots := snapshot :: r.snapshots } entries := by
  obtain ⟨snapshot', heq, hsum⟩ := hinv.snapshot
  cases hsnapshot.symm.trans heq
  refine { hinv with past := fun k older hin => ?_, grows := fun k hfits => ?_ }
  · rcases List.mem_cons.mp hin with rfl | hin
    · rw [hsum]
      exact (Nat.mod_le _ _).trans (hinv.le k)
    · exact hinv.past k older hin
  · refine List.pairwise_cons.mpr ⟨fun older hin => ?_, hinv.grows k hfits⟩
    have hexact : r.sum k = r.counted k := hinv.exactly hfits
    rw [hsum, hexact, u64_of_lt hfits]
    exact hinv.past k older hin

/-- Every step keeps the registry in order. -/
theorem RegistryRunInv.step {label : RegistryLabel} (hinv : RegistryRunInv r entries)
    (hstep : registryStep r label = some r') : ∃ entries', RegistryRunInv r' entries' := by
  cases label with
  | register h =>
    simp only [registryStep] at hstep
    split at hstep <;> try contradiction
    case isTrue hnew =>
      obtain ⟨sys, hregister, rfl⟩ := Option.map_eq_some_iff.mp hstep
      exact ⟨_, hinv.register hnew hregister⟩
  | count h event =>
    simp only [registryStep] at hstep
    split at hstep <;> try contradiction
    case isTrue hmem =>
      cases hstep
      exact ⟨entries, hinv.count hmem.1 event⟩
  | deregister h =>
    simp only [registryStep] at hstep
    split at hstep <;> try contradiction
    case isTrue hmem =>
      obtain ⟨sys, hderegister, rfl⟩ := Option.map_eq_some_iff.mp hstep
      exact hinv.deregister hmem hderegister
  | snapshot =>
    obtain ⟨snapshot, hsnapshot, rfl⟩ := Option.map_eq_some_iff.mp hstep
    exact ⟨entries, hinv.takeSnapshot hsnapshot⟩

/-- What the invariant says of the registry and the snapshots. -/
theorem RegistryRunInv.sound (hinv : RegistryRunInv r entries) : r.Sound := by
  have hptrs : ∀ i, r.sys.pool.core.pool.metrics.heapPtrs i = entries[i]? := hinv.registry.ptrs
  have hcount : r.sys.pool.core.pool.metrics.heapCount = entries.length := hinv.registry.count
  refine ⟨fun h => ?_, fun i j h hi hj => ?_, fun i h hi => ?_, fun i hi => ?_, fun i hi => ?_,
    fun h hroom => ?_, fun h hh => ?_, hinv.snapshot, fun k => hinv.exactly, hinv.grows⟩
  · rw [← hinv.live h, List.mem_iff_getElem?]
    constructor
    · rintro ⟨i, hi⟩
      exact ⟨i, hcount ▸ (List.getElem?_eq_some_iff.mp hi).1, (hptrs i).trans hi⟩
    · rintro ⟨i, -, hi⟩
      exact ⟨i, (hptrs i).symm.trans hi⟩
  · rw [hptrs] at hi hj
    exact (List.getElem?_inj (List.getElem?_eq_some_iff.mp hi).1 hinv.registry.nodup).mp
      (hi.trans hj.symm)
  · exact hinv.registry.idx i h ((hptrs i).symm.trans hi)
  · rw [hptrs, List.getElem?_eq_getElem (hcount ▸ hi)]
    rfl
  · rw [hptrs]
    exact List.getElem?_eq_none (hcount ▸ hi)
  · have hroom' : (r.sys.newHeap h).pool.core.pool.metrics.heapCount < maxHeaps := hroom
    unfold HeapSys.registerHeap PoolMetrics.registerHeap
    rw [if_pos hroom']
    rfl
  · obtain ⟨sys, _, heq, -⟩ := HeapSys.deregisterHeap_registered hinv.registry
      ((hinv.live h).mpr hh)
    rw [heq]
    rfl

/-- In every run the registry lists the registered heaps and a snapshot sums all heaps, modulo 64
bits. -/
theorem registry_sound {headers : ℕ → SlabHeader} {next : ℕ → Option ℕ} {links : Links ℕ QueueHead}
    {labels : List RegistryLabel}
    (hrun : run registryStep (RegistryRun.new headers next links) labels = some r) :
    r.Sound := by
  have hinv : ∃ entries, RegistryRunInv r entries := by
    refine run_invariant (I := fun r => ∃ entries, RegistryRunInv r entries) ?_
      ⟨[], registryRunInv_new headers next links⟩ hrun
    intro r label r' hr hstep
    obtain ⟨entries, hinv⟩ := hr
    exact hinv.step hstep
  obtain ⟨entries, hinv⟩ := hinv
  exact hinv.sound

/-- No heap yet, and memory holds nothing. -/
def emptyRegistry : RegistryRun :=
  .new (fun _ => .init 0 0) (fun _ => none) ⟨fun _ => none, fun _ => none, fun _ => none⟩

/-- Three heaps are registered, the first counts and ends, and the last, moved into its place,
counts. -/
def movedEntryRun : List RegistryLabel :=
  [.register 1, .register 2, .register 3, .count 1 (.alloc 3 64), .snapshot, .deregister 1,
    .count 3 (.remoteFree 5), .snapshot]

/-- After the run two heaps are registered, the moved one at the front, and the snapshot has what
the one that ended counted. -/
theorem registry_sound_movedEntryRun :
    ∃ r, run registryStep emptyRegistry movedEntryRun = some r ∧ r.live = [3, 2] ∧
    r.sys.pool.core.pool.metrics.heapPtrs 0 = some 3 ∧
      r.snapshots.map MetricsSnapshot.allocBytes = [64, 64] ∧ r.Sound := by
  have hcheck : (run registryStep emptyRegistry movedEntryRun).map
      (fun r => decide (r.live = [3, 2] ∧
      r.sys.pool.core.pool.metrics.heapPtrs 0 = some 3 ∧
        r.snapshots.map MetricsSnapshot.allocBytes = [64, 64])) = some true := by decide +kernel
  obtain ⟨r, hrun, hr⟩ := Option.map_eq_some_iff.mp hcheck
  obtain ⟨hlive, hptrs, hbytes⟩ := of_decide_eq_true hr
  exact ⟨r, hrun, hlive, hptrs, hbytes, registry_sound hrun⟩

/-- Counting one event over and over. -/
theorem run_replicate_count (hmem : h ∈ r.live) (event : CountEvent) (hrange : event.InRange)
    (n : ℕ) :
    ∃ r', run registryStep r (List.replicate n (.count h event)) = some r' ∧ r'.live = r.live ∧
      r'.retired = r.retired ∧
      r'.snapshots = r.snapshots ∧ (∀ h' ≠ h, r'.sys.heap h' = r.sys.heap h') ∧
      ∀ k, (r'.sys.heap h).metrics.counter k ≤ (r.sys.heap h).metrics.counter k +
        n * event.amount k ∧
        u64 ((r'.sys.heap h).metrics.counter k) =
          u64 ((r.sys.heap h).metrics.counter k + n * event.amount k) := by
  induction n generalizing r with
  | zero => exact ⟨r, rfl, rfl, rfl, rfl, fun _ _ => rfl, fun k => by simp⟩
  | succ n ih =>
    have hstep : registryStep r (.count h event) = some { r with
        sys := r.sys.count h (·.onEvent event), counted :=
          fun k => r.counted k + event.amount k } :=
      if_pos ⟨hmem, hrange⟩
    obtain ⟨r', hrun, hlive, hretired, hsnapshots, hother, hcounter⟩ := ih (r := { r with
      sys := r.sys.count h (·.onEvent event), counted :=
        fun k => r.counted k + event.amount k }) hmem
    refine ⟨r', run_cons_eq_some.mpr ⟨_, hstep, hrun⟩, hlive, hretired, hsnapshots,
      fun h' hh' => ?_, fun k => ?_⟩
    · rw [hother h' hh']
      simp [HeapSys.count, HeapSys.setHeap, hh']
    · have hself : ((r.sys.count h (·.onEvent event)).heap h).metrics =
          (r.sys.heap h).metrics.onEvent event := by
        simp [HeapSys.count, HeapSys.setHeap]
      have hle := onEvent_counter_le event (r.sys.heap h).metrics k
      have hmod := onEvent_counter event (r.sys.heap h).metrics k
      have hrest := hcounter k
      rw [hself] at hrest
      rw [Nat.succ_mul]
      unfold u64 at *
      omega

/-- A heap maps 64 TiB over and over, half of all that 64 bits can count. -/
def halfCounted (h : ℕ) : List RegistryLabel :=
  List.replicate 0x20000 (.count h (.largeAlloc 0x400000000000))

/-- Two heaps count half of 64 bits each, with a snapshot after each of them. -/
def overflowRun : List RegistryLabel :=
  [.register 1, .register 2] ++ (halfCounted 1 ++ ([.snapshot] ++ (halfCounted 2 ++ [.snapshot])))

/-- Counting half of 64 bits. -/
theorem run_halfCounted (hmem : h ∈ r.live) (hzero : (r.sys.heap h).metrics.allocBytes = 0) :
    ∃ r', run registryStep r (halfCounted h) = some r' ∧ r'.live = r.live ∧ r'.retired = r.retired ∧
      r'.snapshots = r.snapshots ∧ (∀ h' ≠ h, r'.sys.heap h' = r.sys.heap h') ∧
      (r'.sys.heap h).metrics.allocBytes = 0x8000000000000000 := by
  obtain ⟨r', hrun, hlive, hretired, hsnapshots, hother, hcounter⟩ :=
    run_replicate_count hmem (.largeAlloc 0x400000000000) trivial 0x20000
  rw [← halfCounted] at hrun
  refine ⟨r', hrun, hlive, hretired, hsnapshots, hother, ?_⟩
  have hbytes := hcounter .allocBytes
  simp only [HeapMetrics.counter, CountEvent.amount, hzero, u64] at hbytes
  omega

/-- A snapshot in a state where the registry is sound. -/
theorem RegistryRun.Sound.snapshotStep (hsound : r.Sound) :
    ∃ snapshot, registryStep r .snapshot = some { r with snapshots := snapshot :: r.snapshots } ∧
      r.sys.snapshot = some snapshot ∧ snapshot.allocBytes = u64 (r.sum .allocBytes) := by
  obtain ⟨snapshot, hsnapshot, hsum⟩ := hsound.sums
  refine ⟨snapshot, ?_, hsnapshot, hsum .allocBytes⟩
  simp only [registryStep, hsnapshot, Option.map_some]

/-- Together the two heaps counted `2^64` bytes; the second snapshot reports none, after the first
reported `2^63`. -/
theorem snapshot_wraps_overflowRun : ∃ r, run registryStep emptyRegistry overflowRun = some r ∧
    r.sum .allocBytes = 0x10000000000000000 ∧
      r.sys.snapshot.map MetricsSnapshot.allocBytes = some 0 ∧
    r.snapshots.map MetricsSnapshot.allocBytes = [0, 0x8000000000000000] := by
  have hcheck : (run registryStep emptyRegistry [.register 1, .register 2]).map
      (fun r => decide (r.live = [2, 1] ∧
      r.retired.length = 0 ∧ r.snapshots.length = 0 ∧ (r.sys.heap 1).metrics.allocBytes = 0 ∧
      (r.sys.heap 2).metrics.allocBytes = 0)) = some true := by decide +kernel
  obtain ⟨r₀, hrun₀, hr₀⟩ := Option.map_eq_some_iff.mp hcheck
  obtain ⟨hlive₀, hretired₀, hsnapshots₀, hone₀, htwo₀⟩ := of_decide_eq_true hr₀
  obtain ⟨r₁, hrun₁, hlive₁, hretired₁, hsnapshots₁, hother₁, hone₁⟩ :=
    run_halfCounted (r := r₀) (h := 1) (by simp [hlive₀]) hone₀
  have hreach₁ : run registryStep emptyRegistry ([.register 1, .register 2] ++ halfCounted 1) =
      some r₁ := by
    rw [run_append, hrun₀, Option.bind_some, hrun₁]
  obtain ⟨first, hstep₁, -, hfirst⟩ := (registry_sound hreach₁).snapshotStep
  have htwo₁ : (r₁.sys.heap 2).metrics.allocBytes = 0 := by rw [hother₁ 2 (by decide), htwo₀]
  obtain ⟨r₂, hrun₂, hlive₂, hretired₂, hsnapshots₂, hother₂, htwo₂⟩ :=
    run_halfCounted (r := { r₁ with
      snapshots := first :: r₁.snapshots }) (h := 2) (by simp [hlive₁, hlive₀]) htwo₁
  have hreach₂ : run registryStep emptyRegistry
      ([.register 1, .register 2] ++ (halfCounted 1 ++ ([.snapshot] ++ halfCounted 2))) =
      some r₂ := by
    rw [run_append, hrun₀, Option.bind_some, run_append, hrun₁, Option.bind_some,
      List.singleton_append]
    exact run_cons_eq_some.mpr ⟨_, hstep₁, hrun₂⟩
  obtain ⟨second, hstep₂, hsnapshot₂, hsecond⟩ := (registry_sound hreach₂).snapshotStep
  have hsum₁ : r₁.sum .allocBytes = 0x8000000000000000 := by
    simp only [RegistryRun.sum, hlive₁, hlive₀, hretired₁, List.length_eq_zero_iff.mp hretired₀,
      HeapMetrics.counter]
    simp [hone₁, htwo₁]
  have hsum₂ : r₂.sum .allocBytes = 0x10000000000000000 := by
    simp only [RegistryRun.sum, hlive₂, hlive₁, hlive₀, hretired₂, hretired₁,
      List.length_eq_zero_iff.mp hretired₀, HeapMetrics.counter]
    simp [htwo₂, hother₂ 1, hone₁]
  refine ⟨{ r₂ with snapshots := second :: r₂.snapshots }, ?_, hsum₂, ?_, ?_⟩
  · have hsplit : overflowRun = ([.register 1,
        .register 2] ++ (halfCounted 1 ++ ([.snapshot] ++ halfCounted 2))) ++
      [.snapshot] := by
      simp only [overflowRun, List.append_assoc]
    rw [hsplit, run_append, hreach₂, Option.bind_some]
    exact run_cons_eq_some.mpr ⟨_, hstep₂, rfl⟩
  · rw [hsnapshot₂, Option.map_some, hsecond, hsum₂]
    rfl
  · simp only [List.map_cons, hsecond, hsum₂, hsnapshots₂, hfirst, hsum₁, hsnapshots₁,
      List.length_eq_zero_iff.mp hsnapshots₀, List.map_nil]
    rfl

end ClMalloc
