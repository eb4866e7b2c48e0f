import ClMalloc.Metrics
import Mathlib.Data.List.Nodup
import Mathlib.Algebra.BigOperators.Group.List.Basic

/-!
# The registry of heaps and the sums of a snapshot

The entries of the registry list the registered heaps without repetition, and every
registered heap knows its entry; removing one moves the last entry into the gap. Every
summed counter of a snapshot is then one total: what the dead heaps left and what the
registered heaps hold, modulo 64 bits. Registering and deregistering change no total.
-/

namespace ClMalloc

/-- The counters a snapshot sums. -/
inductive Counter
  | allocBytes
  | freeBytes
  | classAllocCount (i : ℕ)
  | classDeallocCount (i : ℕ)
  | classAllocBytes (i : ℕ)
  | classFreeBytes (i : ℕ)
  | remoteFreeCount
  | largeAllocCount
  | largeAllocBytes
  | largeDeallocBytes
  deriving DecidableEq

/-- A counter of a heap. -/
def HeapMetrics.counter (m : HeapMetrics) : Counter → ℕ
  | .allocBytes => m.allocBytes
  | .freeBytes => m.freeBytes
  | .classAllocCount i => m.classAllocCount i
  | .classDeallocCount i => m.classDeallocCount i
  | .classAllocBytes i => m.classAllocBytes i
  | .classFreeBytes i => m.classFreeBytes i
  | .remoteFreeCount => m.remoteFreeCount
  | .largeAllocCount => m.largeAllocCount
  | .largeAllocBytes => m.largeAllocBytes
  | .largeDeallocBytes => m.largeDeallocBytes

/-- A summed counter of a snapshot. -/
def MetricsSnapshot.counter (snapshot : MetricsSnapshot) : Counter → ℕ
  | .allocBytes => snapshot.allocBytes
  | .freeBytes => snapshot.freeBytes
  | .classAllocCount i => snapshot.classAllocCount i
  | .classDeallocCount i => snapshot.classDeallocCount i
  | .classAllocBytes i => snapshot.classAllocBytes i
  | .classFreeBytes i => snapshot.classFreeBytes i
  | .remoteFreeCount => snapshot.remoteFreeCount
  | .largeAllocCount => snapshot.largeAllocCount
  | .largeAllocBytes => snapshot.largeAllocBytes
  | .largeDeallocBytes => snapshot.largeDeallocBytes

/-- The registry of heaps and the counters of the dead ones, as they are kept in the pool's
metrics. -/
structure HeapRegistry where
  heapPtrs : ℕ → Option ℕ
  heapCount : ℕ
  dead : HeapMetrics

/-- The registry in the pool's metrics. -/
def PoolMetrics.registry (m : PoolMetrics) : HeapRegistry := ⟨m.heapPtrs, m.heapCount, m.dead⟩

variable {m m' : PoolMetrics} {registry registry' : HeapRegistry} {heaps heaps' : ℕ → HeapMetrics}
  {entries : List ℕ} {ptr : ℕ}

/-- `accumulate` adds every counter. -/
theorem HeapMetrics.accumulate_counter (m other : HeapMetrics) (k : Counter) :
    (m.accumulate other).counter k = inc (m.counter k) (other.counter k) := by
  cases k <;> rfl

/-- `accumulate_heap` adds every counter. -/
theorem MetricsSnapshot.accumulateHeap_counter (snapshot : MetricsSnapshot) (h : HeapMetrics)
    (k : Counter) :
    (snapshot.accumulateHeap h).counter k = inc (snapshot.counter k) (h.counter k) := by
  cases k <;> rfl

/-- The registry position is not a counter. -/
theorem HeapMetrics.storeRegistryIdx_counter (m : HeapMetrics) (idx : ℕ) (k : Counter) :
    (m.storeRegistryIdx idx).counter k = m.counter k := by
  cases k <;> rfl

/-- Storing a position changes no counter. -/
theorem update_storeRegistryIdx_counter (heaps : ℕ → HeapMetrics) (ptr idx h : ℕ) (k : Counter) :
    (Function.update heaps ptr ((heaps ptr).storeRegistryIdx idx) h).counter k =
      (heaps h).counter k := by
  by_cases hh : h = ptr
  · subst hh
    rw [Function.update_self, HeapMetrics.storeRegistryIdx_counter]
  · rw [Function.update_of_ne hh]

/-- The counters of a new heap are zero. -/
theorem HeapMetrics.zero_counter (k : Counter) : HeapMetrics.zero.counter k = 0 := by
  cases k <;> rfl

/-- Reducing before adding changes nothing. -/
theorem u64_u64_add (a b : ℕ) : u64 (u64 a + b) = u64 (a + b) := Nat.mod_add_mod _ _ _

/-- Reducing twice changes nothing. -/
theorem u64_u64 (a : ℕ) : u64 (u64 a) = u64 a := Nat.mod_mod _ _

/-- A value that fits is not reduced. -/
theorem u64_of_lt {a : ℕ} (h : a < 0x10000000000000000) : u64 a = a := Nat.mod_eq_of_lt h

/-- Adding to one entry of an array. -/
theorem u64_incAt (counters : ℕ → ℕ) (idx amount i : ℕ) :
    u64 (incAt counters idx amount i) = u64 (counters i + if some idx = some i then amount
      else 0) := by
  by_cases hi : i = idx
  · subst hi
    simp [incAt, inc, u64_u64]
  · simp [incAt, hi, Ne.symm hi]

/-- What a heap counts. -/
inductive CountEvent
  | alloc (idx classSize : ℕ)
  | dealloc (idx classSize : ℕ)
  | largeAlloc (size : ℕ)
  | largeDealloc (size : ℕ)
  | remoteFree (count : ℕ)
  deriving DecidableEq

/-- The counters after an event. -/
def HeapMetrics.onEvent (m : HeapMetrics) : CountEvent → HeapMetrics
  | .alloc idx classSize => m.onAlloc idx classSize
  | .dealloc idx classSize => m.onDealloc idx classSize
  | .largeAlloc size => m.onLargeAlloc size
  | .largeDealloc size => m.onLargeDealloc size
  | .remoteFree count => m.onRemoteFree count

/-- The class an event indexes the per-class counters with is one of them. -/
def CountEvent.InRange : CountEvent → Prop
  | .alloc idx _ => idx < numClasses
  | .dealloc idx _ => idx < numClasses
  | _ => True

/-- Whether the class is in range can be computed. -/
instance decidableInRange : (event : CountEvent) → Decidable event.InRange
  | .alloc idx _ => inferInstanceAs (Decidable (idx < numClasses))
  | .dealloc idx _ => inferInstanceAs (Decidable (idx < numClasses))
  | .largeAlloc _ => inferInstanceAs (Decidable True)
  | .largeDealloc _ => inferInstanceAs (Decidable True)
  | .remoteFree _ => inferInstanceAs (Decidable True)

/-- What an event adds to a counter. -/
def CountEvent.amount : CountEvent → Counter → ℕ
  | .alloc _ classSize, .allocBytes => classSize
  | .alloc idx _, .classAllocCount i => if some idx = some i then 1 else 0
  | .alloc idx classSize, .classAllocBytes i => if some idx = some i then classSize else 0
  | .dealloc _ classSize, .freeBytes => classSize
  | .dealloc idx _, .classDeallocCount i => if some idx = some i then 1 else 0
  | .dealloc idx classSize, .classFreeBytes i => if some idx = some i then classSize else 0
  | .largeAlloc size, .allocBytes => size
  | .largeAlloc _, .largeAllocCount => 1
  | .largeAlloc size, .largeAllocBytes => size
  | .largeDealloc size, .freeBytes => size
  | .largeDealloc size, .largeDeallocBytes => size
  | .remoteFree count, .remoteFreeCount => count
  | _, _ => 0

/-- An event adds its amounts, reduced to 64 bits. -/
theorem onEvent_counter (event : CountEvent) (m : HeapMetrics) (k : Counter) :
    u64 ((m.onEvent event).counter k) = u64 (m.counter k + event.amount k) := by
  cases event <;> cases k <;> simp [HeapMetrics.onEvent, HeapMetrics.counter, CountEvent.amount,
    HeapMetrics.onAlloc, HeapMetrics.onDealloc, HeapMetrics.onLargeAlloc,
    HeapMetrics.onLargeDealloc, HeapMetrics.onRemoteFree, inc, u64_u64, u64_incAt]

/-- An event leaves the registry position. -/
theorem onEvent_registryIdx (event : CountEvent) (m : HeapMetrics) :
    (m.onEvent event).registryIdx = m.registryIdx := by
  cases event <;> rfl

/-- An event adds at most its amounts. -/
theorem onEvent_counter_le (event : CountEvent) (m : HeapMetrics) (k : Counter) :
    (m.onEvent event).counter k ≤ m.counter k + event.amount k := by
  have hinc (c amount : ℕ) : inc c amount ≤ c + amount := Nat.mod_le _ _
  have hincAt (counters : ℕ → ℕ) (idx amount i : ℕ) :
      incAt counters idx amount i ≤ counters i + if some idx = some i then amount else 0 := by
    by_cases hi : i = idx
    · subst hi
      simpa [incAt] using hinc (counters i) amount
    · simp [incAt, hi]
  cases event <;> cases k <;> first | exact hinc _ _ | exact hincAt _ _ _ _ | exact le_rfl

/-- The sum of a counter over the dead heaps and the registered ones. -/
def HeapRegistry.total (registry : HeapRegistry) (heaps : ℕ → HeapMetrics) (entries : List ℕ)
    (k : Counter) : ℕ :=
  u64 (registry.dead.counter k + (entries.map fun h => (heaps h).counter k).sum)

/-- The registry lists the registered heaps, each of which knows its entry. -/
structure RegistryInv (registry : HeapRegistry) (heaps : ℕ → HeapMetrics) (entries : List ℕ) :
    Prop where
  ptrs : ∀ i, registry.heapPtrs i = entries[i]?
  count : registry.heapCount = entries.length
  room : entries.length ≤ maxHeaps
  nodup : entries.Nodup
  idx : ∀ i h, entries[i]? = some h → (heaps h).registryIdx = i

/-- A new pool has an empty registry. -/
theorem registryInv_new (heaps : ℕ → HeapMetrics) :
    RegistryInv PoolMetrics.new.registry heaps [] where
  ptrs := fun _ => rfl
  count := rfl
  room := Nat.zero_le _
  nodup := List.nodup_nil
  idx := by simp

/-- Summing the counters of heaps into a snapshot. -/
theorem foldl_accumulateHeap_counter (heaps : ℕ → HeapMetrics) (entries : List ℕ) (k : Counter)
    {snapshot : MetricsSnapshot} (hsnapshot : u64 (snapshot.counter k) = snapshot.counter k) :
    (entries.foldl (fun snapshot h => snapshot.accumulateHeap (heaps h)) snapshot).counter k =
      u64 (snapshot.counter k + (entries.map fun h => (heaps h).counter k).sum) := by
  induction entries generalizing snapshot with
  | nil => simpa using hsnapshot.symm
  | cons h rest ih =>
    have hinc : u64 ((snapshot.accumulateHeap (heaps h)).counter k) =
      (snapshot.accumulateHeap (heaps h)).counter k := by
      rw [MetricsSnapshot.accumulateHeap_counter, inc, u64_u64]
    rw [List.foldl_cons, ih hinc, MetricsSnapshot.accumulateHeap_counter, inc, u64_u64_add,
      List.map_cons, List.sum_cons, Nat.add_assoc]

/-- The loop over the registry reads every entry. -/
theorem RegistryInv.foldlM_eq (hreg : RegistryInv m.registry heaps entries)
    (snapshot : MetricsSnapshot) :
    (List.range m.heapCount).foldlM (m.aggregateEntry heaps) snapshot =
      some (entries.foldl (fun snapshot h => snapshot.accumulateHeap (heaps h)) snapshot) := by
  have hstep (n : ℕ) (hn : n ≤ entries.length) :
      (List.range n).foldlM (m.aggregateEntry heaps) snapshot =
        some ((entries.take n).foldl (fun snapshot h => snapshot.accumulateHeap
          (heaps h)) snapshot) := by
    induction n with
    | zero => rfl
    | succ n ih =>
      have hentry : entries[n]? = some entries[n] := List.getElem?_eq_getElem hn
      rw [List.range_succ, List.foldlM_append, ih (by omega), List.take_add_one,
        List.foldl_append, hentry]
      simp [PoolMetrics.aggregateEntry, show m.heapPtrs n = _ from hreg.ptrs n, hentry]
  rw [show m.heapCount = _ from hreg.count, hstep _ le_rfl, List.take_length]

/-- Every summed counter of the aggregate is the total of that counter. -/
theorem RegistryInv.aggregate (hreg : RegistryInv m.registry heaps entries)
    {snapshot : MetricsSnapshot} (hnew : ∀ k, snapshot.counter k = 0) :
    ∃ snapshot', m.aggregateHeapMetrics heaps snapshot = some snapshot' ∧
      ∀ k, snapshot'.counter k = m.registry.total heaps entries k := by
  refine ⟨_, by rw [PoolMetrics.aggregateHeapMetrics, hreg.foldlM_eq]; rfl, fun k => ?_⟩
  have hdead : (snapshot.accumulateHeap m.dead).counter k = u64 (m.dead.counter k) := by
    rw [MetricsSnapshot.accumulateHeap_counter, hnew, inc, Nat.zero_add]
  have hsum := foldl_accumulateHeap_counter heaps entries k (by rw [hdead, u64_u64])
  rw [hdead, u64_u64_add] at hsum
  rw [HeapRegistry.total, show m.registry.dead = m.dead from rfl, ← hsum]
  cases k <;> rfl

/-- Aggregating leaves the mapped bytes. -/
theorem PoolMetrics.aggregateHeapMetrics_mapped {snapshot snapshot' : MetricsSnapshot}
    (haggregate : m.aggregateHeapMetrics heaps snapshot = some snapshot') :
    snapshot'.mapped = snapshot.mapped := by
  obtain ⟨summed, hfold, rfl⟩ := Option.map_eq_some_iff.mp haggregate
  have hloop (l : List ℕ) (first : MetricsSnapshot)
      (hfold : l.foldlM (m.aggregateEntry heaps) first = some summed) :
      summed.mapped = first.mapped := by
    induction l generalizing first with
    | nil =>
      cases hfold
      rfl
    | cons i rest ih =>
      rw [List.foldlM_cons] at hfold
      obtain ⟨next, hnext, hrest⟩ := Option.bind_eq_some_iff.mp hfold
      obtain ⟨ptr, -, rfl⟩ := Option.map_eq_some_iff.mp hnext
      exact (ih _ hrest).trans rfl
  exact (hloop _ _ hfold).trans rfl

/-- `register_heap` appends an entry; a new heap adds nothing to the totals. -/
theorem RegistryInv.registerHeap (hreg : RegistryInv m.registry heaps entries)
    (hnew : ptr ∉ entries) (hzero : ∀ k, (heaps ptr).counter k = 0)
    (hregister : m.registerHeap heaps ptr = some (m', heaps')) :
    RegistryInv m'.registry heaps' (entries ++ [ptr]) ∧
      (∀ h k, (heaps' h).counter k = (heaps h).counter k) ∧
      ∀ k, m'.registry.total heaps' (entries ++ [ptr]) k = m.registry.total heaps entries k := by
  unfold PoolMetrics.registerHeap at hregister
  split at hregister <;> try contradiction
  case isTrue hroom =>
    cases hregister
    have hcounter := update_storeRegistryIdx_counter heaps ptr m.heapCount
    have hcount : m.heapCount = entries.length := hreg.count
    have hptrs : ∀ i, m.heapPtrs i = entries[i]? := hreg.ptrs
    refine ⟨⟨fun i => ?_, ?_, ?_, ?_, fun i h hi => ?_⟩, hcounter, fun k => ?_⟩
    · change Function.update m.heapPtrs m.heapCount (some ptr) i = _
      by_cases hi : i = entries.length
      · subst hi
        rw [hcount, Function.update_self, List.getElem?_concat_length]
      · rw [hcount, Function.update_of_ne hi, hptrs]
        rcases Nat.lt_or_gt_of_ne hi with hlt | hgt
        · rw [List.getElem?_append_left hlt]
        · rw [List.getElem?_eq_none (by omega), List.getElem?_eq_none (by simp; omega)]
    · change m.heapCount + 1 = _
      simp [hcount]
    · rw [List.length_append, List.length_singleton]
      omega
    · rw [List.nodup_append]
      refine ⟨hreg.nodup, List.nodup_singleton ptr, fun a ha b hb => ?_⟩
      rw [List.mem_singleton.mp hb]
      rintro rfl
      exact hnew ha
    · by_cases hlen : i = entries.length
      · subst hlen
        rw [List.getElem?_concat_length, Option.some.injEq] at hi
        subst hi
        rw [Function.update_self]
        unfold maxHeaps at hroom
        change m.heapCount % 0x100000000 = _
        omega
      · have hold : entries[i]? = some h := by
          rcases Nat.lt_or_gt_of_ne hlen with hlt | hgt
          · rwa [List.getElem?_append_left hlt] at hi
          · rw [List.getElem?_eq_none (by simp; omega)] at hi
            cases hi
        have hne : h ≠ ptr := by
          rintro rfl
          exact hnew (List.mem_of_getElem? hold)
        rw [Function.update_of_ne hne]
        exact hreg.idx i h hold
    · simp only [HeapRegistry.total, hcounter, List.map_append, List.map_cons, List.map_nil,
        List.sum_append, List.sum_singleton, hzero, Nat.add_zero, PoolMetrics.registry]

/-- Entries after a gap, with the last one moved into it. -/
theorem getElem?_fillGap (before after : List ℕ) (gone last i : ℕ) :
    (if i = before.length + after.length + 1 then none
      else if i = before.length then some last else (before ++ gone :: (after ++ [last]))[i]?) =
      (before ++ last :: after)[i]? := by
  rcases Nat.lt_trichotomy i before.length with hlt | rfl | hgt
  · rw [if_neg (by omega), if_neg (by omega), List.getElem?_append_left hlt,
      List.getElem?_append_left hlt]
  · rw [if_neg (by omega), if_pos rfl, List.getElem?_append_right le_rfl, Nat.sub_self]
    rfl
  · obtain ⟨j, rfl⟩ : ∃ j, i = before.length + (j + 1) := ⟨i - before.length - 1, by omega⟩
    have hout : ∀ l : List ℕ, (before ++ l)[before.length + (j + 1)]? = l[j + 1]? := fun l => by
      rw [List.getElem?_append_right (by omega)]
      congr 1
      omega
    rw [hout, hout, List.getElem?_cons_succ, List.getElem?_cons_succ,
      if_neg (by omega : ¬before.length + (j + 1) = before.length)]
    by_cases hj : j = after.length
    · subst hj
      rw [if_pos (by omega), List.getElem?_eq_none le_rfl]
    · rw [if_neg (by omega)]
      rcases Nat.lt_or_gt_of_ne hj with hlt | hgt
      · rw [List.getElem?_append_left hlt]
      · rw [List.getElem?_eq_none (by simp; omega), List.getElem?_eq_none (by omega)]

/-- What `deregister_heap` leaves: the other entries, and the totals. -/
structure Deregistered (m m' : PoolMetrics) (heaps heaps' : ℕ → HeapMetrics)
    (entries entries' : List ℕ) (ptr : ℕ) :
    Prop where
  inv : RegistryInv m'.registry heaps' entries'
  mem : ∀ h, h ∈ entries' ↔ h ∈ entries ∧ h ≠ ptr
  counters : ∀ h k, (heaps' h).counter k = (heaps h).counter k
  totals : ∀ k, m'.registry.total heaps' entries' k = m.registry.total heaps entries k

/-- The counters of the heap that leaves pass to the dead ones. -/
theorem total_accumulate {entries' : List ℕ} (hperm : entries.Perm (ptr :: entries'))
    (hcounter : ∀ h k, (heaps' h).counter k = (heaps h).counter k) (k : Counter)
    (hdead : registry'.dead = registry.dead.accumulate (heaps ptr)) :
    registry'.total heaps' entries' k = registry.total heaps entries k := by
  have hsum : (entries.map fun h => (heaps h).counter k).sum =
      (heaps ptr).counter k + (entries'.map fun h => (heaps h).counter k).sum := by
    rw [(hperm.map _).sum_eq, List.map_cons, List.sum_cons]
  simp only [HeapRegistry.total, hcounter, hdead, HeapMetrics.accumulate_counter, inc, u64_u64_add,
    hsum, Nat.add_assoc]

/-- `deregister_heap` of the last entry clears it. -/
theorem RegistryInv.deregisterLast {before : List ℕ}
    (hreg : RegistryInv m.registry heaps (before ++ [ptr])) :
    ∃ m' heaps', m.deregisterHeap heaps ptr = some (m', heaps') ∧
      Deregistered m m' heaps heaps' (before ++ [ptr]) before ptr := by
  have hidx : (heaps ptr).registryIdx = before.length := hreg.idx before.length ptr (by simp)
  have hcount : m.heapCount = before.length + 1 := by
    rw [show m.heapCount = _ from hreg.count, List.length_append, List.length_singleton]
  have hptrs : ∀ i, m.heapPtrs i = (before ++ [ptr])[i]? := hreg.ptrs
  have hroom := hreg.room
  rw [List.length_append, List.length_singleton] at hroom
  obtain ⟨hbefore, -, happart⟩ := List.nodup_append.mp hreg.nodup
  have hout : ptr ∉ before := fun hin => happart ptr hin ptr List.mem_cons_self rfl
  simp only [PoolMetrics.deregisterHeap, hcount, hidx, if_pos]
  refine ⟨_, heaps, rfl, ⟨fun i => ?_, rfl, by omega, hbefore, fun i h hi => hreg.idx i h ?_⟩,
    fun h => ?_, fun _ _ => rfl,
    fun k => total_accumulate (List.perm_append_singleton ptr before) (fun _ _ => rfl) k rfl⟩
  · change Function.update m.heapPtrs before.length none i = _
    by_cases hi : i = before.length
    · subst hi
      rw [Function.update_self, List.getElem?_eq_none le_rfl]
    · rw [Function.update_of_ne hi, hptrs]
      rcases Nat.lt_or_gt_of_ne hi with hlt | hgt
      · rw [List.getElem?_append_left hlt]
      · rw [List.getElem?_eq_none (by simp; omega), List.getElem?_eq_none (by omega)]
  · obtain ⟨hlt, -⟩ := List.getElem?_eq_some_iff.mp hi
    rwa [List.getElem?_append_left hlt]
  · constructor
    · intro hin
      refine ⟨List.mem_append_left _ hin, ?_⟩
      rintro rfl
      exact hout hin
    · rintro ⟨hin, hne⟩
      rcases List.mem_append.mp hin with hin | hin
      · exact hin
      · exact absurd (List.mem_singleton.mp hin) hne

/-- `deregister_heap` of another entry moves the last one into the gap. -/
theorem RegistryInv.deregisterMiddle {before after : List ℕ} {last : ℕ}
    (hreg : RegistryInv m.registry heaps (before ++ ptr :: (after ++ [last]))) :
    ∃ m' heaps', m.deregisterHeap heaps ptr = some (m', heaps') ∧
      Deregistered m m' heaps heaps' (before ++ ptr :: (after ++ [last]))
        (before ++ last :: after) ptr := by
  have hidx : (heaps ptr).registryIdx = before.length := hreg.idx before.length ptr (by simp)
  have hentries : ∀ i, m.heapPtrs i = (before ++ ptr :: (after ++ [last]))[i]? := hreg.ptrs
  have hcount : m.heapCount = before.length + after.length + 1 + 1 := by
    rw [show m.heapCount = _ from hreg.count]
    simp only [List.length_append, List.length_cons, List.length_nil]
    omega
  have hroom := hreg.room
  rw [← hreg.count, show m.registry.heapCount = _ from hcount] at hroom
  have hptrs (i : ℕ) : Function.update (Function.update m.heapPtrs before.length (some last))
      (before.length + after.length + 1) none i = (before ++ last :: after)[i]? := by
    rw [← getElem?_fillGap before after ptr last i, Function.update_apply,
      Function.update_apply, hentries]
  have hlast : m.heapPtrs (before.length + after.length + 1) = some last := by
    rw [hentries, List.getElem?_append_right (by omega)]
    rw [show before.length + after.length + 1 - before.length = after.length + 1 by omega,
      List.getElem?_cons_succ, List.getElem?_concat_length]
  have hperm : (before ++ ptr :: (after ++ [last])).Perm (ptr :: (before ++ last :: after)) :=
    List.perm_middle.trans ((List.Perm.append_left before
      (List.perm_append_singleton last after)).cons ptr)
  have hnodup := hperm.nodup_iff.mp hreg.nodup
  rw [List.nodup_cons] at hnodup
  have hcounter := update_storeRegistryIdx_counter heaps last before.length
  have hne : before.length ≠ before.length + after.length + 1 := by omega
  have hlt : before.length < maxHeaps := by omega
  simp only [PoolMetrics.deregisterHeap, hcount, hidx, if_neg hne, if_pos hlt, hlast]
  refine ⟨_, _, rfl, ⟨hptrs, ?_, ?_, hnodup.2, fun i h hi => ?_⟩, fun h => ?_, hcounter,
    fun k => total_accumulate hperm hcounter k rfl⟩
  · simp only [PoolMetrics.registry, List.length_append, List.length_cons]
    omega
  · simp only [List.length_append, List.length_cons]
    omega
  · by_cases hh : h = last
    · subst hh
      have hpos : (before ++ h :: after)[before.length]? = some h := by simp
      have hi' : i = before.length := (List.getElem?_inj
        (List.getElem?_eq_some_iff.mp hi).1 hnodup.2).mp (hi.trans hpos.symm)
      rw [Function.update_self, hi']
      change before.length % 0x100000000 = before.length
      unfold maxHeaps at hlt
      omega
    · rw [Function.update_of_ne hh]
      refine hreg.idx i h ?_
      rw [← getElem?_fillGap before after ptr last i] at hi
      split at hi <;> try contradiction
      split at hi
      · exact absurd (Option.some.inj hi).symm hh
      · exact hi
  · rw [hperm.mem_iff, List.mem_cons]
    constructor
    · intro hin
      refine ⟨.inr hin, ?_⟩
      rintro rfl
      exact hnodup.1 hin
    · rintro ⟨rfl | hin, hne⟩
      · exact absurd rfl hne
      · exact hin

/-- `deregister_heap` succeeds on a registered heap. -/
theorem RegistryInv.deregisterHeap (hreg : RegistryInv m.registry heaps entries)
    (hptr : ptr ∈ entries) :
    ∃ m' heaps' entries', m.deregisterHeap heaps ptr = some (m', heaps') ∧
      Deregistered m m' heaps heaps' entries entries' ptr := by
  obtain ⟨before, rest, rfl⟩ := List.append_of_mem hptr
  rcases List.eq_nil_or_concat rest with rfl | ⟨after, last, rfl⟩
  · obtain ⟨m', heaps', heq, hderegistered⟩ := hreg.deregisterLast
    exact ⟨m', heaps', _, heq, hderegistered⟩
  · rw [List.concat_eq_append] at hreg ⊢
    obtain ⟨m', heaps', heq, hderegistered⟩ := hreg.deregisterMiddle
    exact ⟨m', heaps', _, heq, hderegistered⟩

/-- The registry reads the positions of the registered heaps only. -/
theorem RegistryInv.congr (hreg : RegistryInv registry heaps entries)
    (hidx : ∀ h ∈ entries, (heaps' h).registryIdx = (heaps h).registryIdx) :
    RegistryInv registry heaps' entries :=
  { hreg with idx := fun i h hi => (hidx h (List.mem_of_getElem? hi)).trans (hreg.idx i h hi) }

/-- A total reads the counters of the registered heaps only. -/
theorem HeapRegistry.total_congr
    (hcounter : ∀ h ∈ entries, ∀ k, (heaps' h).counter k = (heaps h).counter k) (k : Counter) :
    registry.total heaps' entries k = registry.total heaps entries k := by
  have hmap : (entries.map fun h => (heaps' h).counter k) = entries.map fun h =>
      (heaps h).counter k :=
    List.map_congr_left fun h hh => hcounter h hh k
  rw [HeapRegistry.total, HeapRegistry.total, hmap]

/-- Adding to a counter of a registered heap adds to the total. -/
theorem HeapRegistry.total_update (hnodup : entries.Nodup) (hptr : ptr ∈ entries)
    {metrics : HeapMetrics} {k : Counter} {amount : ℕ}
    (hcounter : u64 (metrics.counter k) = u64 ((heaps ptr).counter k + amount)) :
    registry.total (Function.update heaps ptr metrics) entries k =
      u64 (registry.total heaps entries k + amount) := by
  have hperm := List.perm_cons_erase hptr
  have hrest : ((entries.erase ptr).map fun h => (Function.update heaps ptr metrics h).counter k) =
      (entries.erase ptr).map fun h => (heaps h).counter k := by
    refine List.map_congr_left fun h hh => ?_
    rw [Function.update_of_ne (hnodup.mem_erase_iff.mp hh).1]
  simp only [HeapRegistry.total, (hperm.map _).sum_eq, List.map_cons, List.sum_cons, hrest,
    Function.update_self]
  unfold u64 at *
  omega

/-- The heaps the registry has entries for. -/
def HeapRegistry.registered (registry : HeapRegistry) : List ℕ :=
  (List.range registry.heapCount).filterMap registry.heapPtrs

/-- The entries of the registry are the registered heaps. -/
theorem RegistryInv.registered (hreg : RegistryInv registry heaps entries) :
    registry.registered = entries := by
  have hstep (n : ℕ) (hn : n ≤ entries.length) :
      (List.range n).filterMap registry.heapPtrs = entries.take n := by
    induction n with
    | zero => rfl
    | succ n ih =>
      have hentry : entries[n]? = some entries[n] := List.getElem?_eq_getElem hn
      rw [List.range_succ, List.filterMap_append, ih (by omega), List.take_add_one, hentry]
      simp [hreg.ptrs, hentry]
  rw [HeapRegistry.registered, hreg.count, hstep _ le_rfl, List.take_length]

end ClMalloc
