import ClMalloc.HeapLife

/-!
# Runs of heaps on one pool

Every operation of a run keeps the heaps ready for the next one. Two results follow for
every reachable state: a pointer that `alloc` returns is aligned, lies in one slot of a slab
or in a large region of its own, and shares no byte with another live allocation; and the
bins, queues and slab headers agree, so that a free finds the queue of its slab from the
slab's header alone.
-/

namespace ClMalloc

open Transition Intrusive Placement

/-- Between operations the invariant holds, with nothing in hand and only live heaps holding
slabs. -/
def HeapRun.Sound (r : HeapRun) : Prop := ∃ lists, Ready r.sys r.live lists r.handles r.handles

variable {r r' : HeapRun} {a b : Allocation}

/-- Every operation keeps the heaps sound. -/
theorem heapStep_sound {label : HeapLabel} (hsound : r.Sound) (hstep : heapStep r label = some r') :
    r'.Sound := by
  obtain ⟨lists, hready⟩ := hsound
  cases label with
  | newHeap h =>
    simp only [heapStep] at hstep
    split at hstep <;> try contradiction
    case isTrue hnew =>
      cases hstep
      exact ⟨lists, hready.newHeap hnew⟩
  | alloc h layout reply =>
    simp only [heapStep] at hstep
    split at hstep <;> try contradiction
    case isTrue hguard =>
      have hserved : Served (r.sys.alloc h layout reply) reply layout r.live r.handles r.handles :=
        hready.alloc hguard.1 hguard.2
      rcases hserved with ⟨s', result, lists', heq, hready'⟩ | ⟨heq, -⟩
      · rw [heq] at hstep
        cases result with
        | none =>
          cases hstep
          exact ⟨lists', hready'⟩
        | some ptr =>
          cases hstep
          exact ⟨lists', hready'⟩
      · simp [heq] at hstep
  | dealloc h a =>
    simp only [heapStep] at hstep
    split at hstep <;> try contradiction
    case isTrue hguard =>
      obtain ⟨s', lists', heq, hready'⟩ := hready.dealloc hguard.1 hguard.2
      rw [heq] at hstep
      cases hstep
      exact ⟨lists', hready'⟩
  | dropHeap h =>
    simp only [heapStep] at hstep
    split at hstep <;> try contradiction
    case isTrue =>
      obtain ⟨s', lists', heq, hready', -⟩ := hready.dropHeap h
      rw [heq] at hstep
      cases hstep
      exact ⟨lists', hready'⟩
  | write a value =>
    simp only [heapStep] at hstep
    split at hstep <;> try contradiction
    case isTrue hguard =>
      cases hstep
      obtain ⟨c, hclass⟩ := Option.isSome_iff_exists.mp hguard.2
      exact ⟨lists, hready.inv.write hguard.1 hclass value, hready.hand⟩
  | scribble page header words nextLink prevLink =>
    simp only [heapStep] at hstep
    split at hstep <;> try contradiction
    case isTrue hguard =>
      cases hstep
      refine ⟨lists, hready.scribble ?_ header words nextLink prevLink⟩
      rintro (hin | ⟨c, hin⟩)
      · exact hguard.1 hin
      · exact hguard.2 c (hready.inv.orphans c page hin).range hin

/-- Every run leaves the heaps sound. -/
theorem heapRun_sound {headers : ℕ → SlabHeader} {next : ℕ → Option ℕ} {links : Links ℕ QueueHead}
    {labels : List HeapLabel}
    (hrun : run heapStep (HeapRun.new headers next links) labels = some r) : r.Sound :=
  run_invariant (fun _ _ _ => heapStep_sound) ⟨_, heapInv_new headers next links, rfl⟩ hrun

/-- The regions of two allocations share no byte. -/
def Allocation.Apart (a b : Allocation) : Prop :=
  a.ptr + a.layout.size ≤ b.ptr ∨ b.ptr + b.layout.size ≤ a.ptr

/-- The region lies in one slot of the slab: behind the header, before the end of the page, masking
to its base. -/
structure HeapSys.InSlot (s : HeapSys) (a : Allocation) (slab slot : ℕ) : Prop where
  held : s.pool.Held slab
  classIdx : classIndex a.layout = some (s.headers slab).sizeClassIndex
  index : slot < (s.headers slab).slotCount
  start : a.ptr = slotAddr slab (classSize (s.headers slab).sizeClassIndex) slot
  fits : a.layout.size ≤ classSize (s.headers slab).sizeClassIndex
  afterHeader : slab + slabHeaderSize ≤ a.ptr
  beforeEnd : a.ptr + classSize (s.headers slab).sizeClassIndex ≤ slab + 65536
  mask : slabMask a.ptr = slab

/-- The region lies in a slot of a slab, or is a region the page allocator gave for it alone. -/
def HeapSys.Located (s : HeapSys) (a : Allocation) : Prop :=
  (∃ slab slot, s.InSlot a slab slot) ∨
    (classIndex a.layout = none ∧ (a.ptr, a.layout.size) ∈ s.pool.core.large)

variable {s : HeapSys} {live : List Allocation} {lists : SlabPlace → List ℕ}
  {roster handles : List ℕ} {busy : Option ℕ} {h c slab : ℕ}

/-- A live allocation of a class is in a slot of its slab. -/
theorem HeapInv.inSlot (hinv : HeapInv s live lists roster handles busy) (ha : a ∈ live)
    (hclass : classIndex a.layout = some c) : ∃ slot, s.InSlot a (slabMask a.ptr) slot := by
  obtain ⟨hheld, rfl⟩ := hinv.slab_of_live ha hclass
  obtain ⟨slots, place, hslab, -, hlive⟩ := hinv.slabs _ hheld
  have hslot := hslab.mem_slots (hlive a ha ⟨by simp [hclass], rfl⟩)
  obtain ⟨i, hi, hstart, hlow, hhigh, hmask⟩ := slot_geometry (hinv.quiet.aligned hheld).1 hslot
  have hsize := (hinv.serves a ha).1
  exact ⟨i, hheld, hclass, by rw [hslab.slotCount]; exact hi, hstart,
    (classIndex_spec hsize hclass).2.1, hlow, hhigh, hmask⟩

/-- Every live allocation is located. -/
theorem HeapInv.located (hinv : HeapInv s live lists roster handles busy) (ha : a ∈ live) :
    s.Located a := by
  cases hclass : classIndex a.layout with
  | none =>
    have hserves := (hinv.serves a ha).2
    rw [hclass] at hserves
    exact .inr ⟨hclass, hserves.1⟩
  | some c => exact .inl ⟨_, hinv.inSlot ha hclass⟩

/-- An alignment that divides a class size divides every page address. -/
theorem align_dvd_page {layout : Layout} (hsize : 1 ≤ layout.size)
    (hclass : classIndex layout = some c) :
    layout.align ∣ slabSize := by
  obtain ⟨m, hm⟩ := layout.align_pow
  obtain ⟨hmin, hmax, -⟩ := slab_geometry c
  have hle : layout.align ≤ 2 ^ 15 :=
    (Nat.le_of_dvd (by omega) (classIndex_spec hsize hclass).2.2).trans hmax
  rw [hm] at hle ⊢
  have hm15 : m ≤ 15 := (Nat.pow_le_pow_iff_right (by decide)).mp hle
  exact (pow_dvd_pow 2 hm15).trans ⟨2, rfl⟩

/-- Every live allocation is aligned. -/
theorem HeapInv.align_dvd (hinv : HeapInv s live lists roster handles busy) (ha : a ∈ live) :
    a.layout.align ∣ a.ptr := by
  obtain ⟨hsize, hserves⟩ := hinv.serves a ha
  cases hclass : classIndex a.layout with
  | none =>
    rw [hclass] at hserves
    exact hserves.2
  | some c =>
    obtain ⟨slot, hslot⟩ := hinv.inSlot ha hclass
    obtain ⟨-, -, hdvd⟩ := classIndex_spec hsize hslot.classIdx
    have hoffset := (slab_geometry (s.headers (slabMask a.ptr)).sizeClassIndex).2.2.2.1
    rw [hslot.start, slotAddr]
    refine Nat.dvd_add (Nat.dvd_add ?_ (hdvd.trans hoffset)) (hdvd.mul_left _)
    exact (align_dvd_page hsize hclass).trans (hinv.quiet.aligned hslot.held).1

/-- Different slots of a class are apart. -/
theorem slots_apart {base size i j : ℕ} (hne : slotAddr base size i ≠ slotAddr base size j) :
    slotAddr base size i + size ≤ slotAddr base size j ∨
      slotAddr base size j + size ≤ slotAddr base size i := by
  unfold slotAddr at *
  rcases Nat.lt_trichotomy i j with hlt | rfl | hlt
  · have hle := Nat.mul_le_mul_right size (show i + 1 ≤ j from hlt)
    rw [Nat.add_mul, Nat.one_mul] at hle
    omega
  · exact absurd rfl hne
  · have hle := Nat.mul_le_mul_right size (show j + 1 ≤ i from hlt)
    rw [Nat.add_mul, Nat.one_mul] at hle
    omega

/-- Two live allocations of slabs are apart. -/
theorem HeapSys.InSlot.apart {slab' slot slot' : ℕ} (ha : s.InSlot a slab slot)
    (hb : s.InSlot b slab' slot') (haligned : slabSize ∣ slab ∧ slabSize ∣ slab')
    (hne : a.ptr ≠ b.ptr) : a.Apart b := by
  have hfitsa := ha.fits
  have hfitsb := hb.fits
  have hlowa := ha.afterHeader
  have hlowb := hb.afterHeader
  have hhigha := ha.beforeEnd
  have hhighb := hb.beforeEnd
  unfold Allocation.Apart
  by_cases hslab : slab = slab'
  · subst hslab
    have hstarta := ha.start
    have hstartb := hb.start
    rw [hstarta, hstartb] at hne
    have happart := slots_apart hne
    omega
  · unfold slabSize at haligned
    omega

/-- A slab allocation and a large one are apart. -/
theorem HeapInv.slot_apart_large (hinv : HeapInv s live lists roster handles busy) {slot : ℕ}
    (ha : s.InSlot a slab slot) (hb : (b.ptr, b.layout.size) ∈ s.pool.core.large) : a.Apart b := by
  have happart := hinv.quiet.page_apart ha.held hb
  have hfits := ha.fits
  have hlow := ha.afterHeader
  have hhigh := ha.beforeEnd
  unfold Allocation.Apart
  unfold slabSize at happart
  omega

/-- Two live allocations at different addresses are apart. -/
theorem HeapInv.apart (hinv : HeapInv s live lists roster handles busy) (ha : a ∈ live)
    (hb : b ∈ live) (hne : a.ptr ≠ b.ptr) : a.Apart b := by
  rcases hinv.located ha with ⟨slab, slot, hslota⟩ | ⟨-, hlargea⟩
  · rcases hinv.located hb with ⟨slab', slot', hslotb⟩ | ⟨-, hlargeb⟩
    · exact hslota.apart hslotb ⟨(hinv.quiet.aligned hslota.held).1,
        (hinv.quiet.aligned hslotb.held).1⟩ hne
    · exact hinv.slot_apart_large hslota hlargeb
  · rcases hinv.located hb with ⟨slab', slot', hslotb⟩ | ⟨-, hlargeb⟩
    · exact (hinv.slot_apart_large hslotb hlargea).symm
    · exact hinv.quiet.large_apart hlargea hlargeb hne

/-- A pointer that `alloc` returns in a reachable state is aligned, located, and apart from all that
is live. -/
theorem alloc_exclusive {headers : ℕ → SlabHeader} {next : ℕ → Option ℕ} {links : Links ℕ QueueHead}
    {labels : List HeapLabel} (hrun : run heapStep (HeapRun.new headers next links) labels = some r)
    {layout : Layout} {reply : Option ℕ} {sys : HeapSys} {ptr : ℕ} (hheap : h ∈ r.handles)
    (hsize : 1 ≤ layout.size) (halloc : r.sys.alloc h layout reply = .ok (sys, some ptr)) :
    layout.align ∣ ptr ∧ sys.Located ⟨ptr, layout⟩ ∧
      ∀ b ∈ r.live, Allocation.Apart ⟨ptr, layout⟩ b := by
  obtain ⟨lists, hready⟩ := heapRun_sound hrun
  have hserved : Served (r.sys.alloc h layout reply) reply layout r.live r.handles r.handles :=
    hready.alloc hheap hsize
  rcases hserved with ⟨s', result, lists', heq, hready'⟩ | ⟨heq, -⟩
  · rw [halloc] at heq
    cases heq
    have hinv := hready'.inv
    have hmem : (⟨ptr, layout⟩ : Allocation) ∈ withResult (some ptr) layout r.live :=
      List.mem_cons_self
    refine ⟨hinv.align_dvd hmem, hinv.located hmem, fun b hb => ?_⟩
    refine hinv.apart hmem (List.mem_cons_of_mem _ hb) fun hptr => ?_
    have honce := hinv.liveOnce
    rw [withResult_some, List.map_cons, List.nodup_cons] at honce
    exact honce.1 (hptr ▸ List.mem_map_of_mem hb)
  · rw [halloc] at heq
    cases heq

/-- The layout of 20000 bytes, two of which fit in a slab. -/
def halfSlab : Layout := ⟨20000, 16, ⟨4, rfl⟩, Nat.le_of_ble_eq_true rfl⟩

/-- Nothing allocated, and memory that holds nothing. -/
def emptyHeaps : HeapRun :=
  .new (fun _ => .init 0 0) (fun _ => none) ⟨fun _ => none, fun _ => none, fun _ => none⟩

/-- Heap 1 fills two slabs, heap 2 frees the first allocation, and heap 1 ends: both slabs are
abandoned. -/
def abandonRun : List HeapLabel :=
  [.newHeap 1, .newHeap 2, .alloc 1 halfSlab (some 0x1000000), .alloc 1 halfSlab none,
    .alloc 1 halfSlab none, .alloc 1 halfSlab none, .dealloc 2 ⟨0x1005000, halfSlab⟩, .dropHeap 1]

/-- The pointer an allocation returned. -/
def returned : Except HeapFault (HeapSys × Option ℕ) → Option ℕ
  | .ok (_, result) => result
  | .error _ => none

/-- An allocation that returned a pointer ended. -/
theorem exists_of_returned {outcome : Except HeapFault (HeapSys × Option ℕ)} {ptr : ℕ}
    (hptr : returned outcome = some ptr) : ∃ sys, outcome = .ok (sys, some ptr) := by
  unfold returned at hptr
  split at hptr
  case h_1 sys result => exact ⟨sys, by rw [hptr]⟩
  case h_2 => simp at hptr

/-- Heap 2 adopts the abandoned slabs and gets the slot that was freed, between three live
allocations. -/
theorem alloc_exclusive_abandonRun :
    ∃ r sys, run heapStep emptyHeaps abandonRun = some r ∧ r.live.length = 3 ∧
    r.sys.alloc 2 halfSlab none = .ok (sys, some 0x1005000) ∧ halfSlab.align ∣ 0x1005000 ∧
      sys.Located ⟨0x1005000, halfSlab⟩ ∧
        ∀ b ∈ r.live, Allocation.Apart ⟨0x1005000, halfSlab⟩ b := by
  have hcheck : (run heapStep emptyHeaps abandonRun).map
      (fun r => decide (2 ∈ r.handles ∧ r.live.length = 3 ∧
      returned (r.sys.alloc 2 halfSlab none) = some 0x1005000)) = some true := by decide +kernel
  obtain ⟨r, hrun, hr⟩ := Option.map_eq_some_iff.mp hcheck
  obtain ⟨hheap, hlive, hptr⟩ := of_decide_eq_true hr
  obtain ⟨sys, halloc⟩ := exists_of_returned hptr
  exact ⟨r, sys, hrun, hlive, halloc, alloc_exclusive hrun hheap (by decide) halloc⟩

/-- A heap's bin or queue refers to the slab; `queues` are the slabs of the queues in order. -/
def HeapSys.Refers (s : HeapSys) (queues : QueueHead → List ℕ) (slab : ℕ) : SlabPlace → Prop
  | .bin h c => (s.heap h).bins c = some slab
  | .queue head => slab ∈ queues head
  | .hand => False

/-- The tests of `dealloc` that choose the local path. -/
def HeapSys.FreesLocally (s : HeapSys) (h c slab : ℕ) : Prop :=
  (s.heap h).bins c = some slab ∨ (s.headers slab).heapId = (s.heap h).id

/-- The bins, the queues and the slab headers agree. No operation ends in a fault other than the
page allocator's, so `slab_list_remove` meets no null back link. -/
structure HeapRun.Consistent (r : HeapRun) (queues : QueueHead → List ℕ) : Prop where
  linked : ∀ head, DList r.sys.links (.head head) (queues head)
  once : ∀ head, (queues head).Nodup
  onePlace : ∀ h ∈ r.handles,
    ∀ slab ∈ r.sys.pool.inUse, (r.sys.headers slab).heapId = (r.sys.heap h).id →
    ∃ place, place.owner = some (h, (r.sys.headers slab).sizeClassIndex) ∧
      r.sys.Refers queues slab place ∧ ∀ other, r.sys.Refers queues slab other → other = place
  owned : ∀ place h c slab, place.owner = some (h, c) → r.sys.Refers queues slab place →
    h ∈ r.handles ∧ slab ∈ r.sys.pool.inUse ∧ (r.sys.headers slab).heapId = (r.sys.heap h).id ∧
      (r.sys.headers slab).sizeClassIndex = c
  full : ∀ h c, ∀ slab ∈ queues ⟨h, .full, c⟩, (r.sys.headers slab).freeCount = 0
  part : ∀ h c, ∀ slab ∈ queues ⟨h, .part, c⟩,
    0 < (r.sys.headers slab).freeCount ∧
      (r.sys.headers slab).freeCount < (r.sys.headers slab).slotCount
  active : ∀ h c slab, (r.sys.heap h).bins c = some slab →
    r.sys.links.next slab = none ∧ r.sys.links.prev slab = none
  localPath : ∀ h ∈ r.handles, ∀ a ∈ r.live, ∀ c, classIndex a.layout = some c →
    (r.sys.FreesLocally h c (slabMask a.ptr) ↔
      ∃ place, place.owner = some (h, c) ∧ r.sys.Refers queues (slabMask a.ptr) place)
  promoted : ∀ h ∈ r.handles, ∀ a ∈ r.live, ∀ c, classIndex a.layout = some c →
    (r.sys.heap h).bins c ≠ some (slabMask a.ptr) → r.sys.FreesLocally h c (slabMask a.ptr) →
    (((r.sys.deallocLocal (slabMask a.ptr) a.ptr).headers (slabMask a.ptr)).freeCount = 1 ↔
      slabMask a.ptr ∈ queues ⟨h, .full, c⟩)
  allocs : ∀ h ∈ r.handles, ∀ layout reply fault, 1 ≤ layout.size →
    r.sys.alloc h layout reply = .error fault → fault = .badReply
  deallocs : ∀ h ∈ r.handles, ∀ a ∈ r.live, ∃ sys, r.sys.dealloc h a.ptr a.layout = .ok sys
  drops : ∀ h ∈ r.handles, ∃ sys, r.sys.dropHeap h = .ok sys

/-- References are the places of the slabs. -/
theorem Ready.refers_iff (hready : Ready s live lists roster handles) {place : SlabPlace} :
    s.Refers (fun head => lists (.queue head)) slab place ↔ slab ∈ lists place := by
  cases place with
  | bin h c => exact hready.inv.mem_bin.symm
  | queue head => exact Iff.rfl
  | hand => simp [HeapSys.Refers, hready.hand]

/-- A free takes the local path exactly for the slabs of its heap. -/
theorem Ready.freesLocally_iff (hready : Ready s live lists roster handles) (hheap : h ∈ handles)
    (ha : a ∈ live) (hclass : classIndex a.layout = some c) :
    s.FreesLocally h c (slabMask a.ptr) ↔ ∃ place, place.owner = some (h, c) ∧
      slabMask a.ptr ∈ lists place := by
  have hinv := hready.inv
  obtain ⟨hheld, hslab⟩ := hinv.slab_of_live ha hclass
  constructor
  · rintro (hactive | hid)
    · exact ⟨.bin h c, rfl, hinv.mem_bin.mpr hactive⟩
    · obtain ⟨place, hplace, howner⟩ := hready.place_of_id hheap hheld hid
      exact ⟨place, by rw [howner, hslab], hplace⟩
  · rintro ⟨place, howner, hplace⟩
    exact .inr (hinv.belongs place h c howner _ hplace).heapId

/-- After a local free into a slab that is not active, the count tells whether it was in the full
queue. -/
theorem Ready.freed_iff (hready : Ready s live lists roster handles) (hheap : h ∈ handles)
    (ha : a ∈ live) (hclass : classIndex a.layout = some c)
    (hactive : (s.heap h).bins c ≠ some (slabMask a.ptr))
    (hid : (s.headers (slabMask a.ptr)).heapId = (s.heap h).id) :
    ((s.deallocLocal (slabMask a.ptr) a.ptr).headers (slabMask a.ptr)).freeCount = 1 ↔
      slabMask a.ptr ∈ lists (.queue ⟨h, .full, c⟩) := by
  have hinv := hready.inv
  obtain ⟨hheld, hslab⟩ := hinv.slab_of_live ha hclass
  obtain ⟨queue, hqueue⟩ := hready.queue_of_id hheap hheld hid hslab hactive
  rw [(hinv.counts _ _ hqueue (by simp)).freed (hinv.deallocLocal ha hclass).2]
  constructor
  · rintro hfull
    dsimp only at hfull
    exact hfull ▸ hqueue
  · intro hin
    have hplace := hinv.separate.unique hqueue hin
    rw [SlabPlace.queue.injEq] at hplace
    rw [hplace]

/-- In every reachable state the heaps are consistent. -/
theorem heaps_consistent {headers : ℕ → SlabHeader} {next : ℕ → Option ℕ}
    {links : Links ℕ QueueHead} {labels : List HeapLabel}
    (hrun : run heapStep (HeapRun.new headers next links) labels = some r) :
    ∃ queues, r.Consistent queues := by
  obtain ⟨lists, hready⟩ := heapRun_sound hrun
  have hinv := hready.inv
  refine ⟨fun head => lists (.queue head), ?_⟩
  exact
    { linked := hinv.linked
      once := fun head => hinv.separate.nodup _
      onePlace := fun h hheap slab hslab hid => by
        obtain ⟨place, hplace, howner⟩ := hready.place_of_id hheap (.inl hslab) hid
        refine ⟨place, howner, hready.refers_iff.mpr hplace, fun other hother => ?_⟩
        exact hinv.separate.unique (hready.refers_iff.mp hother) hplace
      owned := fun place h c slab howner hrefers => by
        have hplace := hready.refers_iff.mp hrefers
        have hbelongs := hinv.belongs place h c howner slab hplace
        exact ⟨hbelongs.heap, (hinv.inUse slab).mpr ⟨place, hplace⟩, hbelongs.heapId,
          hbelongs.classIdx⟩
      full := fun h c slab hslab => hinv.counts ⟨h, .full, c⟩ slab hslab (by simp)
      part := fun h c slab hslab => hinv.counts ⟨h, .part, c⟩ slab hslab (by simp)
      active := fun h c slab hactive => hinv.binLinks h c slab (hinv.mem_bin.mpr hactive)
      localPath := fun h hheap a ha c hclass => by
        simp only [hready.refers_iff]
        exact hready.freesLocally_iff hheap ha hclass
      promoted := fun h hheap a ha c hclass hactive hlocal => by
        have hid : (r.sys.headers (slabMask a.ptr)).heapId = (r.sys.heap h).id :=
          hlocal.resolve_left hactive
        exact hready.freed_iff hheap ha hclass hactive hid
      allocs := fun h hheap layout reply fault hsize heq => by
        have hserved : Served (r.sys.alloc h layout reply) reply layout r.live
            r.handles r.handles :=
          hready.alloc hheap hsize
        rcases hserved with ⟨_, _, _, hok, -⟩ | ⟨hbad, -⟩
        · rw [heq] at hok
          cases hok
        · rw [heq] at hbad
          cases hbad
          rfl
      deallocs := fun h hheap a ha => by
        obtain ⟨sys, _, hok, -⟩ := hready.dealloc hheap ha
        exact ⟨sys, hok⟩
      drops := fun h _ => by
        obtain ⟨sys, _, hok, -⟩ := hready.dropHeap h
        exact ⟨sys, hok⟩ }

/-- Heap 2 has adopted the slabs: one is its active slab, the other in its full queue. -/
theorem heaps_consistent_adopted :
    ∃ r, run heapStep emptyHeaps (abandonRun ++ [.alloc 2 halfSlab none]) = some r ∧
    r.handles = [2] ∧ r.live.length = 4 ∧ r.sys.pool.inUse = [0x1000000, 0x1010000] ∧
      ∃ queues, r.Consistent queues := by
  have hcheck : (run heapStep emptyHeaps (abandonRun ++ [.alloc 2 halfSlab none])).map
      (fun r => decide
      (r.handles = [2] ∧ r.live.length = 4 ∧
        r.sys.pool.inUse = [0x1000000, 0x1010000])) = some true := by
    decide +kernel
  obtain ⟨r, hrun, hr⟩ := Option.map_eq_some_iff.mp hcheck
  obtain ⟨hheaps, hlive, hinUse⟩ := of_decide_eq_true hr
  exact ⟨r, hrun, hheaps, hlive, hinUse, heaps_consistent hrun⟩

end ClMalloc
