import ClMalloc.Heap

/-!
# What holds of the heaps between operations, and inside them

Every page in use is in one place: the active slab of a class, one of the queues, or in the
hands of the running operation. The lists behind the places agree with the bins and are
doubly linked lists through the queue heads; slabs belong to the heap and class of their
place, and the counts of queued slabs say which queue they are in. Abandoned slabs form
chains through `next_link` and carry the id of a heap that is gone.

Inside an operation two things may be off: the count of the slab being worked on (`busy`),
and, while a heap is being dropped, its slabs are still in its queues (`roster` lists the
heaps that may hold slabs).
-/

namespace ClMalloc

open Intrusive Placement

/-- Where a page in use is. -/
inductive SlabPlace
  | bin (h c : ℕ)
  | queue (head : QueueHead)
  | hand
  deriving DecidableEq

/-- The heap and class of a place. -/
def SlabPlace.owner : SlabPlace → Option (ℕ × ℕ)
  | .bin h c => some (h, c)
  | .queue head => some (head.heap, head.classIdx)
  | .hand => none

/-- What the queue a slab is in says about its available slots. -/
def Queue.CountOk (queue : Queue) (header : SlabHeader) : Prop :=
  match queue with
  | .full => header.freeCount = 0
  | .part => 0 < header.freeCount ∧ header.freeCount < header.slotCount

/-- The slab is of the class, carries the id of the heap, and the heap may hold slabs. -/
structure HeapSys.Belongs (s : HeapSys) (roster : List ℕ) (h c slab : ℕ) : Prop where
  heap : h ∈ roster
  range : c < numClasses
  classIdx : (s.headers slab).sizeClassIndex = c
  heapId : (s.headers slab).heapId = (s.heap h).id

/-- The slab carries the id of no live heap. -/
structure HeapSys.Orphan (s : HeapSys) (handles : List ℕ) (c slab : ℕ) : Prop where
  range : c < numClasses
  classIdx : (s.headers slab).sizeClassIndex = c
  old : (s.headers slab).heapId < s.nextHeapId
  noHeap : ∀ h ∈ handles, (s.headers slab).heapId ≠ (s.heap h).id

/-- A live allocation is in a slab of its class, or is a large region. -/
def HeapSys.Serves (s : HeapSys) (a : Allocation) : Prop :=
  1 ≤ a.layout.size ∧
    match classIndex a.layout with
    | some c => s.pool.Held (slabMask a.ptr) ∧ (s.headers (slabMask a.ptr)).sizeClassIndex = c
    | none => (a.ptr, a.layout.size) ∈ s.pool.core.large ∧ a.layout.align ∣ a.ptr

/-- The invariant of the heaps. -/
structure HeapInv (s : HeapSys) (live : List Allocation) (lists : SlabPlace → List ℕ)
    (roster handles : List ℕ) (busy : Option ℕ) : Prop where
  quiet : Quiet s.pool
  separate : Separate lists
  inUse : ∀ p, p ∈ s.pool.inUse ↔ ∃ place, p ∈ lists place
  bins : ∀ h c, lists (.bin h c) = ((s.heap h).bins c).toList
  linked : Linked s.links fun head => lists (.queue head)
  binLinks : ∀ h c, ∀ p ∈ lists (.bin h c), s.links.next p = none ∧ s.links.prev p = none
  abandoned : ∀ c, Chain s.links.next (s.pool.abandoned c).head? (s.pool.abandoned c)
  belongs : ∀ place h c, place.owner = some (h, c) → ∀ p ∈ lists place, s.Belongs roster h c p
  counts : ∀ head, ∀ p ∈ lists (.queue head), busy ≠ some p → head.queue.CountOk (s.headers p)
  orphans : ∀ c, ∀ p ∈ s.pool.abandoned c, s.Orphan handles c p
  ids : ∀ h ∈ roster, (s.heap h).id < s.nextHeapId
  idsDiffer : ∀ h ∈ roster, ∀ h' ∈ roster, (s.heap h).id = (s.heap h').id → h = h'
  alive : ∀ h ∈ handles, h ∈ roster
  aliveOnce : handles.Nodup
  slabs : ∀ p, s.pool.Held p → SlabOk s.next live p (s.headers p)
  serves : ∀ a ∈ live, s.Serves a
  liveOnce : (live.map Allocation.ptr).Nodup

/-- Before the first heap is made nothing is in use. -/
theorem heapInv_new (headers : ℕ → SlabHeader) (next : ℕ → Option ℕ) (links : Links ℕ QueueHead) :
    HeapInv (HeapSys.new headers next links) [] (fun _ => []) [] [] none where
  quiet := quiet_new
  separate := ⟨fun _ => List.nodup_nil, fun _ _ _ => List.disjoint_nil_left _⟩
  inUse := by simp [HeapSys.new, PagePool.new, PagePool.inUse, PoolCore.new]
  bins := fun _ _ => rfl
  linked := fun _ => rfl
  binLinks := by simp
  abandoned := fun _ => rfl
  belongs := by simp
  counts := by simp
  orphans := by simp [HeapSys.new, PagePool.new]
  ids := by simp
  idsDiffer := by simp
  alive := by simp
  aliveOnce := List.nodup_nil
  slabs := by simp [HeapSys.new, PagePool.new, PagePool.Held, PagePool.inUse, PoolCore.new]
  serves := by simp
  liveOnce := List.nodup_nil

variable {s s' : HeapSys} {live live' : List Allocation} {lists : SlabPlace → List ℕ}
  {roster handles : List ℕ} {busy : Option ℕ} {h c slab page ptr : ℕ} {head : QueueHead}
  {place : SlabPlace}

/-- Where a slab belongs depends on its header and on the heap's id. -/
theorem HeapSys.Belongs.congr (hbelongs : s.Belongs roster h c slab)
    (hheader : s'.headers slab = s.headers slab) (hid : (s'.heap h).id = (s.heap h).id) :
    s'.Belongs roster h c slab :=
  ⟨hbelongs.heap, hbelongs.range, by rw [hheader]; exact hbelongs.classIdx,
    by rw [hheader, hid]; exact hbelongs.heapId⟩

/-- Whether a slab is an orphan depends on its header and on the ids of the live heaps. -/
theorem HeapSys.Orphan.congr (horphan : s.Orphan handles c slab)
    (hheader : s'.headers slab = s.headers slab) (hnext : s.nextHeapId ≤ s'.nextHeapId)
    (hheaps : ∀ h ∈ handles, (s.headers slab).heapId ≠ (s'.heap h).id) : s'.Orphan handles c slab :=
  ⟨horphan.range, by rw [hheader]; exact horphan.classIdx,
    by rw [hheader]; exact horphan.old.trans_le hnext,
    fun h hh => by rw [hheader]; exact hheaps h hh⟩

/-- A listed slab is held. -/
theorem HeapInv.held (hinv : HeapInv s live lists roster handles busy)
    (hslab : slab ∈ lists place) :
    s.pool.Held slab :=
  .inl ((hinv.inUse slab).mpr ⟨place, hslab⟩)

/-- A listed slab is on no abandoned list. -/
theorem HeapInv.notMem_abandoned (hinv : HeapInv s live lists roster handles busy)
    (hslab : slab ∈ lists place) (c : ℕ) :
    slab ∉ s.pool.abandoned c := fun hin =>
  hinv.quiet.lists_apart.2.2.1 c ((hinv.inUse slab).mpr ⟨place, hslab⟩) hin

/-- The queues hold different slabs. -/
theorem HeapInv.queues_separate (hinv : HeapInv s live lists roster handles busy) :
    Separate fun head => lists (.queue head) where
  nodup := fun head => hinv.separate.nodup _
  disjoint := fun head head' hne => hinv.separate.disjoint _ _ (by simpa using hne)

/-- The active slab of a class is in its bin. -/
theorem HeapInv.mem_bin (hinv : HeapInv s live lists roster handles busy) :
    slab ∈ lists (.bin h c) ↔ (s.heap h).bins c = some slab := by
  rw [hinv.bins]
  simp

/-- The bin of a class is the slab listed as active. -/
theorem HeapInv.bins_eq_head? (hinv : HeapInv s live lists roster handles busy) (h c : ℕ) :
    (s.heap h).bins c = (lists (.bin h c)).head? := by
  rw [hinv.bins, Option.head?_toList]

/-- A slab in hand is in no queue. -/
theorem HeapInv.notMem_queue (hinv : HeapInv s live lists roster handles busy)
    (hslab : slab ∈ lists .hand) (head : QueueHead) : slab ∉ lists (.queue head) := fun hin => by
  have := hinv.separate.unique hslab hin
  simp at this

/-- Other pages keep their slots when a page's slots are written. -/
theorem SlabOk.other {next next' : ℕ → Option ℕ} {h : SlabHeader} (hok : SlabOk next live page h)
    (hpage : slabSize ∣ page) (hne : page ≠ slab)
    (hnext : ∀ p, slabMask p ≠ slab → next' p = next p)
    (hlive : ∀ a ∈ live', slabMask a.ptr ≠ slab → a ∈ live) : SlabOk next' live' page h := by
  have hframe := hok.congr_next hpage fun p hp => hnext p (by rw [hp]; exact hne)
  exact hframe.congr_live fun a ha hserved => hlive a ha (by rw [hserved.2]; exact hne)

/-- Whether an allocation is served depends on the held pages, their classes and the large
regions. -/
theorem HeapSys.Serves.congr {a : Allocation} (hserves : s.Serves a)
    (hheld : ∀ p, s.pool.Held p → a.ServedFrom p →
      s'.pool.Held p ∧ (s'.headers p).sizeClassIndex = (s.headers p).sizeClassIndex)
    (hlarge : (a.ptr, a.layout.size) ∈ s.pool.core.large →
      (a.ptr, a.layout.size) ∈ s'.pool.core.large) :
    s'.Serves a := by
  obtain ⟨hsize, hplace⟩ := hserves
  refine ⟨hsize, ?_⟩
  cases hclass : classIndex a.layout with
  | none =>
    simp only [hclass] at hplace ⊢
    exact ⟨hlarge hplace.1, hplace.2⟩
  | some c =>
    simp only [hclass] at hplace ⊢
    obtain ⟨hheld', hclass'⟩ := hheld _ hplace.1 ⟨by simp [hclass], rfl⟩
    exact ⟨hheld', hclass'.trans hplace.2⟩

/-- The contents of one slab change: its header, the links in its slots, and the allocations it
serves. -/
theorem HeapInv.content (hinv : HeapInv s live lists roster handles busy) (hslab : s.pool.Held slab)
    (hbusy : busy = none ∨ busy = some slab) {header : SlabHeader} {next' : ℕ → Option ℕ}
    (hclass : header.sizeClassIndex = (s.headers slab).sizeClassIndex)
    (hid : header.heapId = (s.headers slab).heapId ∨ slab ∈ lists .hand)
    (hok : SlabOk next' live' slab header) (hnext : ∀ p, slabMask p ≠ slab → next' p = s.next p)
    (hlive : ∀ a ∈ live', slabMask a.ptr ≠ slab → a ∈ live) (hserves : ∀ a ∈ live', s.Serves a)
    (honce : (live'.map Allocation.ptr).Nodup) :
    HeapInv { s with next := next', headers := Function.update s.headers slab header } live'
      lists roster handles (some slab) := by
  have hheader (p : ℕ) (hp : p ≠ slab) : Function.update s.headers slab header p = s.headers p :=
    Function.update_of_ne hp _ _
  refine
    { hinv with
      belongs := fun place h c howner p hp => ?_
      counts := fun head p hp hne => ?_
      orphans := fun c p hp => ?_
      slabs := fun p hp => ?_
      serves := fun a ha => ?_
      liveOnce := honce }
  · have hbelongs := hinv.belongs place h c howner p hp
    by_cases hps : p = slab
    · subst hps
      have hid' : header.heapId = (s.headers p).heapId := by
        rcases hid with hid | hhand
        · exact hid
        · have := hinv.separate.unique hp hhand
          subst this
          simp [SlabPlace.owner] at howner
      exact ⟨hbelongs.heap, hbelongs.range, by simpa [hclass] using hbelongs.classIdx,
        by simpa [hid'] using hbelongs.heapId⟩
    · exact hbelongs.congr (hheader p hps) rfl
  · have hps : p ≠ slab := by
      rintro rfl
      exact hne rfl
    change head.queue.CountOk (Function.update s.headers slab header p)
    rw [hheader p hps]
    refine hinv.counts head p hp ?_
    rcases hbusy with rfl | rfl
    · simp
    · simpa using Ne.symm hps
  · have horphan := hinv.orphans c p hp
    by_cases hps : p = slab
    · subst hps
      have hid' : header.heapId = (s.headers p).heapId := by
        rcases hid with hid | hhand
        · exact hid
        · exact absurd hp (hinv.notMem_abandoned hhand c)
      exact ⟨horphan.range, by simpa [hclass] using horphan.classIdx,
        by simpa [hid'] using horphan.old, by simpa [hid'] using horphan.noHeap⟩
    · exact horphan.congr (hheader p hps) le_rfl horphan.noHeap
  · by_cases hps : p = slab
    · subst hps
      simpa using hok
    · change SlabOk next' live' p (Function.update s.headers slab header p)
      rw [hheader p hps]
      exact (hinv.slabs p hp).other (hinv.quiet.aligned hp).1 hps hnext hlive
  · refine (hserves a ha).congr (fun p hp _ => ⟨hp, ?_⟩) fun hlarge => hlarge
    by_cases hps : p = slab
    · subst hps
      simpa using hclass
    · exact congrArg SlabHeader.sizeClassIndex (hheader p hps)

/-- The count of a slab may be put in doubt. -/
theorem HeapInv.doubt (hinv : HeapInv s live lists roster handles none) (slab : ℕ) :
    HeapInv s live lists roster handles (some slab) :=
  { hinv with counts := fun head p hp _ => hinv.counts head p hp (by simp) }

/-- Once the count of the slab being worked on fits its queue again, nothing is off. -/
theorem HeapInv.settle (hinv : HeapInv s live lists roster handles (some slab))
    (hcount : ∀ head, slab ∈ lists (.queue head) → head.queue.CountOk (s.headers slab)) :
    HeapInv s live lists roster handles none :=
  { hinv with
    counts := fun head p hp _ => by
      by_cases hps : p = slab
      · subst hps
        exact hcount head hp
      · exact hinv.counts head p hp (by simpa using Ne.symm hps) }

/-- A slab in no queue has no count to fit. -/
theorem HeapInv.settle_of_notMem (hinv : HeapInv s live lists roster handles (some slab))
    (hslab : ∀ head, slab ∉ lists (.queue head)) : HeapInv s live lists roster handles none :=
  hinv.settle fun head hin => absurd hin (hslab head)

/-- Slabs change places, and the links and bins with them. -/
theorem HeapInv.relink (hinv : HeapInv s live lists roster handles busy)
    {lists' : SlabPlace → List ℕ} {links : Links ℕ QueueHead} {heap : ℕ → Heap} (busy' : Option ℕ)
    (hseparate : Separate lists')
    (hmem : ∀ p, (∃ place, p ∈ lists' place) ↔ ∃ place, p ∈ lists place)
    (hbins : ∀ h c, lists' (.bin h c) = ((heap h).bins c).toList)
    (hlinked : Linked links fun head => lists' (.queue head))
    (hbinLinks : ∀ h c, ∀ p ∈ lists' (.bin h c), links.next p = none ∧ links.prev p = none)
    (habandoned : ∀ c, ∀ p ∈ s.pool.abandoned c, links.next p = s.links.next p)
    (hbelongs : ∀ place h c, place.owner = some (h, c) → ∀ p ∈ lists' place, s.Belongs roster h c p)
    (hcounts : ∀ head, ∀ p ∈ lists' (.queue head), busy' ≠ some p →
      head.queue.CountOk (s.headers p))
    (hid : ∀ h, (heap h).id = (s.heap h).id) :
    HeapInv { s with links := links, heap := heap } live lists' roster handles busy' :=
  { hinv with
    separate := hseparate
    inUse := fun p => (hinv.inUse p).trans (hmem p).symm
    bins := hbins
    linked := hlinked
    binLinks := hbinLinks
    abandoned := fun c => (hinv.abandoned c).congr (habandoned c)
    belongs := fun place h c howner p hp => by
      exact (hbelongs place h c howner p hp).congr rfl (hid h)
    counts := hcounts
    orphans := fun c p hp => by
      refine (hinv.orphans c p hp).congr rfl le_rfl fun h hh => ?_
      rw [show (heap h).id = _ from hid h]
      exact (hinv.orphans c p hp).noHeap h hh
    ids := fun h hh => by
      rw [show (heap h).id = _ from hid h]
      exact hinv.ids h hh
    idsDiffer := fun h hh h' hh' heq => by
      rw [show (heap h).id = _ from hid h, show (heap h').id = _ from hid h'] at heq
      exact hinv.idsDiffer h hh h' hh' heq
    serves := hinv.serves }

/-- After a transfer a place holds what belongs there, if the slab that came does. -/
theorem HeapInv.belongs_transfer (hinv : HeapInv s live lists roster handles busy)
    {src dst : SlabPlace} (hslab : ∀ h c, dst.owner = some (h, c) → s.Belongs roster h c slab)
    (place : SlabPlace) (h c : ℕ) (howner : place.owner = some (h, c)) (p : ℕ)
    (hp : p ∈ transfer lists src dst slab place) :
    s.Belongs roster h c p := by
  rcases of_mem_transfer hp with ⟨rfl, rfl⟩ | hin
  · exact hslab h c howner
  · exact hinv.belongs place h c howner p hin

/-- `slab_list_remove` succeeds on a queued slab and puts it in hand, with cleared links. -/
theorem HeapInv.slabListRemove (hinv : HeapInv s live lists roster handles busy)
    (hslab : slab ∈ lists (.queue head)) (hbusy : busy = none ∨ busy = some slab) :
    ∃ links, s.slabListRemove slab = .ok { s with links := links } ∧
      HeapInv { s with links := links } live
        (transfer lists (.queue head) .hand slab) roster handles none ∧
      links.next slab = none ∧ links.prev slab = none := by
  obtain ⟨links, heq, hlinked, hnext, hprev, hframe⟩ :=
    hinv.linked.remove hinv.queues_separate hslab
  refine ⟨links, by simp [HeapSys.slabListRemove, heq], ?_, hnext, hprev⟩
  refine hinv.relink none (hinv.separate.transfer (by simp) hslab)
    (fun p => hinv.separate.mem_transfer (by simp) hslab) (fun h c => ?_) ?_ (fun h c p hp => ?_)
    (fun c p hp => ?_)
    (hinv.belongs_transfer (by simp [SlabPlace.owner])) (fun head' p hp _ => ?_) (fun _ => rfl)
  · rw [transfer_of_ne (by simp) (by simp)]
    exact hinv.bins h c
  · convert hlinked using 1
    funext head'
    by_cases hh : head' = head
    · subst hh
      rw [transfer_src (by simp), Function.update_self]
    · rw [transfer_of_ne (by simpa using hh) (by simp), Function.update_of_ne hh]
  · rw [transfer_of_ne (by simp) (by simp)] at hp
    have hnot : p ∉ lists (.queue head) := hinv.separate.disjoint _ _ (by simp) hp
    rw [(hframe p hnot).1, (hframe p hnot).2]
    exact hinv.binLinks h c p hp
  · have hnot : p ∉ lists (.queue head) := fun hin => hinv.notMem_abandoned hin c hp
    exact (hframe p hnot).1
  · have hin : p ∈ lists (.queue head') := by
      rcases of_mem_transfer hp with ⟨hplace, -⟩ | hin
      · simp at hplace
      · exact hin
    have hne : p ≠ slab := by
      rintro rfl
      have heq := hinv.separate.unique hin hslab
      rw [SlabPlace.queue.injEq] at heq
      subst heq
      rw [transfer_src (by simp), (hinv.separate.nodup _).mem_erase_iff] at hp
      exact hp.1 rfl
    refine hinv.counts head' p hin ?_
    rcases hbusy with rfl | rfl
    · simp
    · simpa using Ne.symm hne

/-- `slab_list_pop` puts the first slab of a queue in hand, with cleared links. -/
theorem HeapInv.slabListPop (hinv : HeapInv s live lists roster handles none) {rest : List ℕ}
    (hlist : lists (.queue head) = slab :: rest) :
    ∃ links, s.slabListPop head = some (slab, { s with links := links }) ∧
      HeapInv { s with links := links } live
        (transfer lists (.queue head) .hand slab) roster handles none ∧
      links.next slab = none ∧ links.prev slab = none := by
  have hslab : slab ∈ lists (.queue head) := by simp [hlist]
  obtain ⟨links, hremove, hinv', hnext, hprev⟩ := hinv.slabListRemove hslab (.inl rfl)
  have hl : DList s.links (.head head) (lists (.queue head)) := hinv.linked head
  rw [hlist] at hl
  have hlinks : s.links.remove slab = some links := by
    unfold HeapSys.slabListRemove at hremove
    split at hremove <;> try contradiction
    case h_1 links' hsome =>
      cases hremove
      exact hsome
  rw [Links.remove_eq hl.2.1, Option.some.injEq] at hlinks
  refine ⟨links, ?_, hinv', hnext, hprev⟩
  rw [HeapSys.slabListPop, Links.pop_eq hl.1, hlinks]

/-- `slab_list_pop` finds nothing in an empty queue. -/
theorem HeapInv.slabListPop_nil (hinv : HeapInv s live lists roster handles busy)
    (hlist : lists (.queue head) = []) :
    s.slabListPop head = none := by
  rw [HeapSys.slabListPop, hinv.linked.pop_nil hlist]

/-- `slab_list_push` queues a slab in hand whose count fits the queue. -/
theorem HeapInv.slabListPush (hinv : HeapInv s live lists roster handles none) (head : QueueHead)
    (hslab : slab ∈ lists .hand) (hbelongs : s.Belongs roster head.heap head.classIdx slab)
    (hcount : head.queue.CountOk (s.headers slab)) :
    HeapInv (s.slabListPush head slab) live
      (transfer lists .hand (.queue head) slab) roster handles none := by
  have hnot := hinv.notMem_queue hslab
  refine hinv.relink none (hinv.separate.transfer (by simp) hslab)
    (fun p => hinv.separate.mem_transfer (by simp) hslab) (fun h c => ?_) ?_ (fun h c p hp => ?_)
    (fun c p hp => ?_) (hinv.belongs_transfer ?_) (fun head' p hp _ => ?_) (fun _ => rfl)
  · rw [transfer_of_ne (by simp) (by simp)]
    exact hinv.bins h c
  · convert hinv.linked.push hinv.queues_separate hnot using 1
    funext head'
    by_cases hh : head' = head
    · subst hh
      rw [transfer_dst, Function.update_self]
    · rw [transfer_of_ne (by simp) (by simpa using hh), Function.update_of_ne hh]
  · rw [transfer_of_ne (by simp) (by simp)] at hp
    have hqueue : p ∉ lists (.queue head) := hinv.separate.disjoint _ _ (by simp) hp
    have hne : p ≠ slab := by
      rintro rfl
      exact hinv.separate.disjoint _ _ (by simp) hp hslab
    have hframe := hinv.linked.push_frame hqueue hne
    rw [hframe.1, hframe.2]
    exact hinv.binLinks h c p hp
  · have hqueue : p ∉ lists (.queue head) := fun hin => hinv.notMem_abandoned hin c hp
    have hne : p ≠ slab := by
      rintro rfl
      exact hinv.notMem_abandoned hslab c hp
    exact (hinv.linked.push_frame hqueue hne).1
  · rintro h c ⟨⟩
    exact hbelongs
  · rcases of_mem_transfer hp with ⟨hplace, rfl⟩ | hin
    · cases hplace
      exact hcount
    · exact hinv.counts head' p hin (by simp)

/-- Only one heap's bins change when a bin is set. -/
theorem HeapSys.setBin_heap (s : HeapSys) (h c : ℕ) (slab : Option ℕ) (h' c' : ℕ) :
    ((s.setBin h c slab).heap h').id = (s.heap h').id ∧
      ((s.setBin h c slab).heap h').bins c' = if h' = h ∧ c' = c then slab
        else (s.heap h').bins c' := by
  by_cases hh : h' = h
  · subst hh
    by_cases hc : c' = c <;> simp [HeapSys.setBin, HeapSys.setHeap, hc]
  · simp [HeapSys.setBin, HeapSys.setHeap, hh]

/-- A slab in hand with cleared links becomes the active slab of an empty bin. -/
theorem HeapInv.setBin_some (hinv : HeapInv s live lists roster handles none)
    (hslab : slab ∈ lists .hand) (hempty : (s.heap h).bins c = none)
    (hbelongs : s.Belongs roster h c slab)
    (hlinks : s.links.next slab = none ∧ s.links.prev slab = none) :
    HeapInv (s.setBin h c (some slab)) live
      (transfer lists .hand (.bin h c) slab) roster handles none := by
  refine hinv.relink none (hinv.separate.transfer (by simp) hslab)
    (fun p => hinv.separate.mem_transfer (by simp) hslab) (fun h' c' => ?_) ?_
    (fun h' c' p hp => ?_) (fun c p hp => rfl) (hinv.belongs_transfer ?_) (fun head' p hp _ => ?_)
    (fun h' => (s.setBin_heap h c (some slab) h' c).1)
  · rw [show (Function.update s.heap h _ h').bins c' =
      _ from (s.setBin_heap h c (some slab) h' c').2]
    by_cases hbin : h' = h ∧ c' = c
    · obtain ⟨rfl, rfl⟩ := hbin
      rw [transfer_dst, hinv.bins, hempty]
      simp
    · rw [transfer_of_ne (by simp) (by simpa using hbin), hinv.bins, if_neg hbin]
  · convert hinv.linked using 1
    funext head'
    rw [transfer_of_ne (by simp) (by simp)]
  · rcases of_mem_transfer hp with ⟨-, rfl⟩ | hin
    · exact hlinks
    · exact hinv.binLinks h' c' p hin
  · rintro h' c' ⟨⟩
    exact hbelongs
  · rw [transfer_of_ne (by simp) (by simp)] at hp
    exact hinv.counts head' p hp (by simp)

/-- The active slab of a class is taken in hand. -/
theorem HeapInv.setBin_none (hinv : HeapInv s live lists roster handles none)
    (hslab : (s.heap h).bins c = some slab) :
    HeapInv (s.setBin h c none) live (transfer lists (.bin h c) .hand slab) roster
      handles none := by
  have hbin : slab ∈ lists (.bin h c) := hinv.mem_bin.mpr hslab
  refine hinv.relink none (hinv.separate.transfer (by simp) hbin)
    (fun p => hinv.separate.mem_transfer (by simp) hbin) (fun h' c' => ?_) ?_ (fun h' c' p hp => ?_)
    (fun c p hp => rfl) (hinv.belongs_transfer (by simp [SlabPlace.owner])) (fun head' p hp _ => ?_)
    (fun h' => (s.setBin_heap h c none h' c).1)
  · rw [show (Function.update s.heap h _ h').bins c' = _ from (s.setBin_heap h c none h' c').2]
    by_cases hbin : h' = h ∧ c' = c
    · obtain ⟨rfl, rfl⟩ := hbin
      rw [transfer_src (by simp), hinv.bins, hslab]
      simp
    · rw [transfer_of_ne (by simpa using hbin) (by simp), hinv.bins, if_neg hbin]
  · convert hinv.linked using 1
    funext head'
    rw [transfer_of_ne (by simp) (by simp)]
  · rcases of_mem_transfer hp with ⟨hplace, -⟩ | hin
    · simp at hplace
    · exact hinv.binLinks h' c' p hin
  · rw [transfer_of_ne (by simp) (by simp)] at hp
    exact hinv.counts head' p hp (by simp)

end ClMalloc
