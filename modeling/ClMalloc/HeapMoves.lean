import Mathlib.Algebra.BigOperators.Group.List.Basic
import Mathlib.Algebra.Ring.Nat
import ClMalloc.HeapSystem

/-!
# Where slabs go when a heap scans

Inside a call of `alloc` the heaps pass through states that no other call sees: the active
slab has been retired, or the full queue has been scanned. In each of them, and between
calls, a scan of the full queue visits each of its slabs once and files it by what is free
in it after draining.
-/

namespace ClMalloc

open Intrusive Placement Transition

/-- The states a call of `alloc` on heap `h` for class `c` passes through before it asks for a slab:
the one it starts in, the one in which the exhausted active slab has been retired, and those after a
scan. -/
inductive AllocPoint (h c : ℕ) (s : HeapSys) : HeapSys → Prop
  | start : AllocPoint h c s s
  | retired {slab : ℕ} {s₁ : HeapSys} (hslab : (s.heap h).bins c = some slab)
      (hfirst : (s.slabAlloc slab).2 = none)
      (hdrain : s.drainRemote slab = .ok s₁) (hsecond : (s₁.slabAlloc slab).2 = none) :
      AllocPoint h c s (s₁.retireActive h c)
  | scanned {s₁ s₂ : HeapSys} (hpoint : AllocPoint h c s s₁) (hempty : (s₁.heap h).bins c = none)
      (hpopped : (s₁.tryPartial h c).2 = false) (hscan : s₁.scanFullList h c = .ok s₂) :
      AllocPoint h c s s₂

variable {s s' : HeapSys} {live : List Allocation} {lists lists' : SlabPlace → List ℕ}
  {roster handles : List ℕ} {busy : Option ℕ} {h c slab : ℕ}

/-- A layout of the size of a class. -/
def classLayout (c : ℕ) : Layout where
  size := classSize c
  align := 1
  align_pow := ⟨0, rfl⟩
  size_le := by
    have hmax := (slab_geometry c).2.1
    rw [Nat.div_one, Nat.mul_one, Nat.add_sub_cancel]
    exact hmax.trans (by decide)

/-- It is of its class. -/
theorem classLayout_spec (hc : c < numClasses) :
    1 ≤ (classLayout c).size ∧ classIndex (classLayout c) = some c := by
  have hclasses : ∀ i < numClasses, classIndex (classLayout i) = some i := by decide +kernel
  have hmin : 8 ≤ (classLayout c).size := (slab_geometry c).1
  exact ⟨by omega, hclasses c hc⟩

/-- A slab that hands out nothing has nothing available. -/
theorem HeapInv.freeCount_of_slabAlloc (hinv : HeapInv s live lists roster handles busy)
    (hslab : s.pool.Held slab) (hnone : (s.slabAlloc slab).2 = none) :
    (s.headers slab).freeCount = 0 := by
  rw [← (hinv.slabs slab hslab).alloc_eq_none]
  unfold HeapSys.slabAlloc at hnone
  split at hnone
  case h_1 => simp at hnone
  case h_2 halloc => exact halloc

/-- The invariant holds in every state a call of `alloc` passes through. -/
theorem Ready.allocPoint (hready : Ready s live lists roster handles)
    (hpoint : AllocPoint h c s s') :
    ∃ lists', Ready s' live lists' roster handles := by
  induction hpoint with
  | start => exact ⟨lists, hready⟩
  | retired hslab _ hdrain hsecond =>
    have hinv := hready.inv
    have hmem := hinv.mem_bin.mpr hslab
    obtain ⟨s₁, hdrain', hdrained, hdrains⟩ := hinv.drains (hinv.held hmem)
    rw [hdrain] at hdrain'
    cases hdrain'
    have hsettled := hdrained.settle_of_notMem fun head hin => by
      have := hinv.separate.unique hin hmem
      simp at this
    have hzero := hsettled.freeCount_of_slabAlloc (hsettled.held hmem) hsecond
    obtain ⟨lists', hready', -⟩ := Ready.retireActive ⟨hsettled, hready.hand⟩
      (by rw [hdrains.heap]; exact hslab) hzero
    exact ⟨lists', hready'⟩
  | scanned _ _ _ hscan ih =>
    obtain ⟨lists₁, hready₁⟩ := ih
    obtain ⟨s', lists', hscan', -, hready', -⟩ := hready₁.scanFullList h c
    rw [hscan] at hscan'
    cases hscan'
    exact ⟨lists', hready'⟩

/-- What a scan of the full queue `fulls` does: it makes one round for each slab, and files each by
what was free. -/
structure HeapSys.Scanned (h c : ℕ) (s s' : HeapSys) (fulls : List ℕ) : Prop where
  ends : HeapSys.scanLoop h c fulls.length s (s.links.head ⟨h, .full, c⟩) = .ok s'
  noSooner : ∀ n < fulls.length, HeapSys.scanLoop h c n s (s.links.head ⟨h, .full, c⟩) =
    .error .outOfFuel
  drained : ∀ p ∈ fulls, s.Merged s' p
  untouched : ∀ p, p ∉ fulls → s.SameSlab s' p
  full : DList s'.links (.head ⟨h, .full, c⟩)
    (fulls.filter fun p => !(s.headers p).hasPendingRemote)
  active : (s'.heap h).bins c = (fulls.filter s.partFree).head?
  part : DList s'.links (.head ⟨h, .part, c⟩) (fulls.filter s.partFree).tail.reverse
  recycled : run PagePool.cacheSlabToEnd s.pool (fulls.filter s.allFree) = some s'.pool
  unlisted : ∀ p ∈ fulls, s.allFree p = true →
    (∀ h' c', (s'.heap h').bins c' ≠ some p) ∧
      ∀ head nodes, DList s'.links (.head head) nodes → p ∉ nodes
  recovered : (fulls.map fun p => (s'.headers p).freeCount).sum =
    (fulls.map fun p => (s.headers p).freeCount).sum +
    (fulls.map fun p => ((s.headers p).remoteSlots s.next).length).sum

/-- A slab without an available slot has a free slot if and only if its remote stack has entries. -/
theorem HeapInv.noneFree_iff (hinv : HeapInv s live lists roster handles busy)
    (hslab : s.pool.Held slab) (hzero : (s.headers slab).freeCount = 0) :
    s.noneFree slab = !(s.headers slab).hasPendingRemote := by
  have hpos := (hinv.slabs slab hslab).slotCount_pos
  obtain ⟨fuel, hfuel⟩ := Nat.exists_eq_add_of_le' hpos
  rw [HeapSys.noneFree, HeapSys.freeTotal, hzero, SlabHeader.remoteSlots,
    SlabHeader.hasPendingRemote, hfuel]
  cases (s.headers slab).remoteHead with
  | none => rfl
  | some slot => simp [walk]

/-- Only the fully free slabs are passed to the cache. -/
theorem run_recycle (pool : PagePool) (slabs : List ℕ) (full : ℕ → Bool) :
    run PagePool.recycle pool (slabs.map fun p => (p, full p)) =
      run PagePool.cacheSlabToEnd pool (slabs.filter full) := by
  induction slabs generalizing pool with
  | nil => rfl
  | cons slab slabs ih =>
    rw [List.map_cons]
    by_cases hfull : full slab = true
    · rw [List.filter_cons_of_pos hfull, run, run, PagePool.recycle, if_pos hfull]
      exact congrArg _ (funext ih)
    · rw [List.filter_cons_of_neg hfull, run, PagePool.recycle, if_neg hfull]
      exact ih pool

/-- A scan with too little fuel does not end. -/
theorem Ready.scanLoop_short {fuel : ℕ} {before rest : List ℕ}
    (hready : Ready s live lists roster handles)
    (hlist : lists (.queue ⟨h, .full, c⟩) = before ++ rest) (hfuel : fuel < rest.length) :
    HeapSys.scanLoop h c fuel s rest.head? = .error .outOfFuel := by
  induction rest generalizing s lists before fuel with
  | nil => simp at hfuel
  | cons slab rest ih =>
    cases fuel with
    | zero => rfl
    | succ fuel =>
      have hslab : slab ∈ lists (.queue ⟨h, .full, c⟩) := by simp [hlist]
      have hlinked : DList s.links _ (lists (.queue ⟨h, .full, c⟩)) :=
        hready.inv.linked ⟨h, .full, c⟩
      rw [hlist] at hlinked
      obtain ⟨s₁, lists₁, hround, hready₁, hresult₁⟩ := hready.scanSlab hslab
      have hlist₁ := hresult₁.full before rest (by simpa using hlist)
      rw [List.head?_cons, hround fuel, hlinked.next_eq]
      exact ih hready₁ hlist₁ (by simpa using hfuel)

/-- A fully free slab that the scan saw is in no place any more. -/
theorem ScanResult.not_listed
    (hresult : ScanResult h c live s s' lists lists' (lists (.queue ⟨h, .full, c⟩)))
    (hinv : HeapInv s live lists roster handles busy) (hnoBin : lists (.bin h c) = [])
    (hnoPart : lists (.queue ⟨h, .part, c⟩) = []) (hslab : slab ∈ lists (.queue ⟨h, .full, c⟩))
    (hall : s.allFree slab = true) {place : SlabPlace} (hplace : place ≠ .hand) :
    slab ∉ lists' place := by
  have hpart : s.partFree slab = false := by simp [HeapSys.partFree, hall]
  have hnone : s.noneFree slab = false := by
    rcases hinv.kinds (hinv.held hslab) with hkinds | hkinds | hkinds
    · exact hkinds.2.2
    · simp [hkinds.1] at hall
    · simp [hkinds.1] at hall
  intro hin
  by_cases howner : place.owner = some (h, c)
  · cases place with
    | bin h' c' =>
      obtain ⟨rfl, rfl⟩ : h' = h ∧ c' = c := by simpa [SlabPlace.owner] using howner
      rw [hresult.filed.active, hnoBin] at hin
      have hfound := (List.mem_filter.mp (List.mem_of_mem_take hin)).2
      simp [hpart] at hfound
    | queue head =>
      obtain ⟨h', queue, c'⟩ := head
      obtain ⟨rfl, rfl⟩ : h' = h ∧ c' = c := by simpa [SlabPlace.owner] using howner
      cases queue with
      | full =>
        rw [hresult.full [] [] (by simp)] at hin
        simp [hnone] at hin
      | part =>
        rw [hresult.filed.part, hnoBin, hnoPart, List.append_nil, List.mem_reverse] at hin
        have hfound := (List.mem_filter.mp (List.mem_of_mem_drop hin)).2
        simp [hpart] at hfound
    | hand => exact hplace rfl
  · have howned : place.owner ≠ none := by
      cases place with
      | bin => simp [SlabPlace.owner]
      | queue => simp [SlabPlace.owner]
      | hand => exact absurd rfl hplace
    rw [hresult.filed.others place howned howner] at hin
    exact howner (hinv.separate.unique hin hslab ▸ rfl)

/-- Behind an empty bin and an empty partial queue, a scan files the slabs of the full queue. -/
theorem Ready.scanned (hready : Ready s live lists roster handles)
    (hempty : (s.heap h).bins c = none) (hhead : s.links.head ⟨h, .part, c⟩ = none) :
    ∃ s', s.scanFullList h c = .ok s' ∧ s.Scanned h c s' (lists (.queue ⟨h, .full, c⟩)) := by
  have hinv := hready.inv
  have hnoBin : lists (.bin h c) = [] := by
    rw [hinv.bins, hempty]
    rfl
  have hnoPart : lists (.queue ⟨h, .part, c⟩) = [] := by
    have hlinked : DList s.links _ (lists (.queue ⟨h, .part, c⟩)) := hinv.linked ⟨h, .part, c⟩
    exact List.head?_eq_none_iff.mp (hlinked.read_eq.symm.trans hhead)
  have hlinked : DList s.links _ (lists (.queue ⟨h, .full, c⟩)) := hinv.linked ⟨h, .full, c⟩
  have hfirst : s.links.head ⟨h, .full, c⟩ = (lists (.queue ⟨h, .full, c⟩)).head? := hlinked.read_eq
  obtain ⟨s', lists', hscan, hends, hready', hresult⟩ := hready.scanFullList h c
  have hinv' := hready'.inv
  have hfound : lists (.bin h c) ++ (lists (.queue ⟨h, .full, c⟩)).filter s.partFree =
      (lists (.queue ⟨h, .full, c⟩)).filter s.partFree := by
    rw [hnoBin, List.nil_append]
  refine ⟨s', hscan, ?_⟩
  constructor
  case ends => exact hends
  case noSooner =>
    intro n hn
    rw [hfirst]
    exact hready.scanLoop_short (List.nil_append _).symm hn
  case drained => exact fun p hp => hresult.sweep.merged p hp (by simp)
  case untouched => exact hresult.sweep.same
  case full =>
    have hlist : DList s'.links _ (lists' (.queue ⟨h, .full, c⟩)) := hinv'.linked ⟨h, .full, c⟩
    rw [hresult.full [] [] (by simp), List.nil_append, List.append_nil] at hlist
    have hzero (p : ℕ) (hp : p ∈ lists (.queue ⟨h, .full, c⟩)) : (s.headers p).freeCount = 0 :=
      hinv.counts ⟨h, .full, c⟩ p hp (by simp)
    rw [List.filter_congr fun p hp => (hinv.noneFree_iff (hinv.held hp) (hzero p hp)).symm]
    exact hlist
  case active =>
    rw [hinv'.bins_eq_head?, hresult.filed.active, hfound, List.head?_take, if_neg one_ne_zero]
  case part =>
    have hlist : DList s'.links _ (lists' (.queue ⟨h, .part, c⟩)) := hinv'.linked ⟨h, .part, c⟩
    rwa [hresult.filed.part, hfound, hnoPart, List.append_nil, List.drop_one] at hlist
  case recycled =>
    rw [← run_recycle]
    exact hresult.sweep.pool
  case unlisted =>
    intro p hp hall
    refine ⟨fun h' c' hbin => ?_, fun head nodes hnodes => ?_⟩
    · exact hresult.not_listed hinv hnoBin hnoPart hp hall (by simp) (hinv'.mem_bin.mpr hbin)
    · rw [hnodes.unique (hinv'.linked head)]
      exact hresult.not_listed hinv hnoBin hnoPart hp hall (by simp)
  case recovered =>
    rw [← List.sum_map_add]
    exact congrArg List.sum (List.map_congr_left fun p hp =>
      (hresult.sweep.merged p hp (by simp)).count)

variable {r : HeapRun} {headers : ℕ → SlabHeader} {next : ℕ → Option ℕ} {links : Links ℕ QueueHead}
  {labels : List HeapLabel}

/-- In every reachable state, also inside a call of `alloc`, with an empty bin and an empty partial
queue, `scan_full_list` files the slabs of the full queue. -/
theorem scan_files_full_queue (hrun : run heapStep (HeapRun.new headers next links) labels = some r)
    (hpoint : AllocPoint h c r.sys s) (hempty : (s.heap h).bins c = none)
    (hhead : s.links.head ⟨h, .part, c⟩ = none) :
    ∃ fulls s', DList s.links (.head ⟨h, .full, c⟩) fulls ∧ fulls.Nodup ∧
      s.scanFullList h c = .ok s' ∧ s.Scanned h c s' fulls := by
  obtain ⟨lists, hready⟩ := heapRun_sound hrun
  obtain ⟨lists', hready'⟩ := hready.allocPoint hpoint
  obtain ⟨s', hscan, hscanned⟩ := hready'.scanned hempty hhead
  exact ⟨_, s', hready'.inv.linked _, hready'.inv.separate.nodup _, hscan, hscanned⟩

/-- Three slabs of the class of `halfSlab`: heap 2 frees one slot of the first and both of the
second. -/
def pendingRun : List HeapLabel :=
  [.newHeap 1, .newHeap 2, .alloc 1 halfSlab (some 0x1000000), .alloc 1 halfSlab none,
    .alloc 1 halfSlab none, .alloc 1 halfSlab none, .alloc 1 halfSlab none, .alloc 1 halfSlab none,
    .dealloc 2 ⟨0x1005000, halfSlab⟩, .dealloc 2 ⟨0x1015000, halfSlab⟩,
    .dealloc 2 ⟨0x101a000, halfSlab⟩]

/-- The state in which the next request of heap 1 has retired its active slab. -/
def retiredState (s : HeapSys) (h c slab : ℕ) : Option HeapSys :=
  match s.drainRemote slab with
  | .ok s₁ =>
    if (s.heap h).bins c = some slab ∧ (s.slabAlloc slab).2 = none ∧
        (s₁.slabAlloc slab).2 = none then
      some (s₁.retireActive h c)
    else none
  | .error _ => none

/-- It is a state of that call. -/
theorem allocPoint_of_retiredState (hretired : retiredState s h c slab = some s') :
    AllocPoint h c s s' := by
  unfold retiredState at hretired
  split at hretired <;> try contradiction
  case h_1 s₁ hdrain =>
    split at hretired <;> try contradiction
    case isTrue hguard =>
      cases hretired
      exact .retired hguard.1 hguard.2.1 hdrain hguard.2.2

/-- Of the three full slabs one has both slots pending and is recycled, one a single slot and
becomes active. -/
theorem scan_files_full_queue_pendingRun :
    ∃ r s fulls s', run heapStep emptyHeaps pendingRun = some r ∧
    AllocPoint 1 45 r.sys s ∧ s.links.head ⟨1, .full, 45⟩ = some 0x1020000 ∧
      s.scanFullList 1 45 = .ok s' ∧
      s.Scanned 1 45 s' fulls ∧ s.allFree 0x1010000 = true ∧
        (s'.heap 1).bins 45 = some 0x1000000 := by
  have hcheck : ((run heapStep emptyHeaps pendingRun).bind fun r =>
      (retiredState r.sys 1 45 0x1020000).bind fun s =>
      (s.scanFullList 1 45).toOption.map fun s' => decide ((s.heap 1).bins 45 = none ∧
        s.links.head ⟨1, .part, 45⟩ = none ∧ s.links.head ⟨1, .full, 45⟩ = some 0x1020000 ∧
          s.allFree 0x1010000 = true ∧
            (s'.heap 1).bins 45 = some 0x1000000)) = some true := by decide +kernel
  obtain ⟨r, hrun, hr⟩ := Option.bind_eq_some_iff.mp hcheck
  obtain ⟨s, hretired, hs⟩ := Option.bind_eq_some_iff.mp hr
  obtain ⟨s', hscan', hs'⟩ := Option.map_eq_some_iff.mp hs
  obtain ⟨hempty, hpart, hfull, hall, hactive⟩ := of_decide_eq_true hs'
  have hpoint := allocPoint_of_retiredState hretired
  obtain ⟨fulls, s₁, -, -, hscan, hscanned⟩ := scan_files_full_queue hrun hpoint hempty hpart
  rw [hscan] at hscan'
  cases hscan'
  exact ⟨r, s, fulls, _, hrun, hpoint, hfull, hscan, hscanned, hall, hactive⟩

end ClMalloc
