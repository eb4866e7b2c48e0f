import ClMalloc.HeapViewPool

/-!
# The actions of the heap programs

An action made of several accesses to a heap's own memory is a chain of the moves of the
views. What a thread must know of its slabs before and after is said of its view alone.
-/

namespace ClMalloc

open Threads Intrusive Placement

/-- Between the parts of an operation: the heap is live, with nothing in hand and no allocation
obtained. -/
structure HeapView.Calm (v : HeapView) : Prop where
  alive : v.phase = .alive
  hand : v.hand = []
  pending : v.pending = []

/-- The active slab of the class, if there is one, has an available slot. -/
def HeapView.Ready (v : HeapView) (c : ℕ) : Prop :=
  ∀ slab, v.bins c = some slab → 0 < (v.header slab).freeCount

/-- The heap has no slab of a class. -/
structure HeapView.Cleared (v : HeapView) (c : ℕ) : Prop where
  bin : v.bins c = none
  queues : ∀ queue, v.queues queue c = []

variable {s s' : HeapSys} {ctx : HeapContext} {views : ℕ → HeapView}
  {lists lists' : SlabPlace → List ℕ} {roster : List ℕ} {allocs allocs' : List Allocation}
  {busy busy' : Option ℕ} {h h' c slab page p ptr : ℕ} {v v' : HeapView} {a : Allocation}
  {layout : Layout} {pool : PagePool} {queue : Queue}

/-- A heap that is live is not gone. -/
theorem HeapView.Calm.phase_ne (hcalm : v.Calm) : v.phase ≠ .gone := by
  rw [hcalm.alive]
  simp

/-- A queued slab is of the class and carries the id. -/
theorem HeapSys.Agrees.queued
    (hagrees : s.Agrees ctx (Function.update views h v) lists roster allocs busy)
    (hslab : slab ∈ v.queues queue c) :
    (v.header slab).sizeClassIndex = c ∧ (v.header slab).heapId = v.id := by
  have hown := hagrees.own
  have hbelongs := hagrees.inv.belongs (.queue ⟨h, queue, c⟩) h c rfl slab (by rwa [hown.queues])
  obtain ⟨hclass, hid, -, -⟩ := hagrees.header_eq (.inr (.inl ⟨queue, c, hslab⟩))
  exact ⟨by rw [← hclass, hbelongs.classIdx], by rw [← hid, hbelongs.heapId, hown.id]⟩

/-- The active slab is of the class and carries the id. -/
theorem HeapSys.Agrees.active
    (hagrees : s.Agrees ctx (Function.update views h v) lists roster allocs busy)
    (hslab : v.bins c = some slab) :
    (v.header slab).sizeClassIndex = c ∧ (v.header slab).heapId = v.id := by
  have hown := hagrees.own
  have hmem := hagrees.inv.mem_bin.mpr (show (s.heap h).bins c = some slab by rw [hown.bins, hslab])
  have hbelongs := hagrees.inv.belongs (.bin h c) h c rfl slab hmem
  obtain ⟨hclass, hid, -, -⟩ := hagrees.header_eq (.inl ⟨c, hslab⟩)
  exact ⟨by rw [← hclass, hbelongs.classIdx], by rw [← hid, hbelongs.heapId, hown.id]⟩

/-- The count of a queued slab fits its queue. -/
theorem HeapSys.Agrees.queue_count
    (hagrees : s.Agrees ctx (Function.update views h v) lists roster allocs none)
    (hslab : slab ∈ v.queues queue c) : queue.CountOk (v.header slab) := by
  have hown := hagrees.own
  have hcount := hagrees.inv.counts ⟨h, queue, c⟩ slab (by rwa [hown.queues]) (by simp)
  rw [← hown.header slab (.inr (.inl ⟨queue, c, hslab⟩))]
  exact hcount

/-- A slab that is not fully free and has an available slot fits the partial queue. -/
theorem HeapSys.Agrees.part_count
    (hagrees : s.Agrees ctx (Function.update views h v) lists roster allocs busy)
    (hhas : v.Has slab) (hfree : (v.header slab).isFullyFree = false)
    (hpos : 0 < (v.header slab).freeCount) :
    Queue.part.CountOk (v.header slab) := by
  have hheader := hagrees.own.header slab hhas
  rw [← hheader] at hfree hpos ⊢
  exact hagrees.inv.countOk_part (.inl (hagrees.has_inUse hhas)) hfree hpos

/-- A slab is in one queue of its heap. -/
theorem HeapSys.Agrees.queue_unique
    (hagrees : s.Agrees ctx (Function.update views h v) lists roster allocs busy) {queue' : Queue}
    {c' : ℕ} (hslab : slab ∈ v.queues queue c) (hslab' : slab ∈ v.queues queue' c') :
    queue' = queue ∧ c' = c := by
  have hown := hagrees.own
  rw [← hown.queues] at hslab hslab'
  simpa using hagrees.inv.separate.unique hslab' hslab

/-- A slab in hand that is partly free becomes active, or joins the partial queue. -/
theorem HeapSys.Agrees.promote
    (hagrees : s.Agrees ctx (Function.update views h v) lists roster allocs none)
    (hhand : v.hand = [slab]) (hphase : v.phase ≠ .gone)
    (hclass : (v.header slab).sizeClassIndex = c) (hid : (v.header slab).heapId = v.id)
    (hcount : Queue.part.CountOk (v.header slab))
    (hnull : v.next slab = none ∧ v.prev slab = none) :
    ∃ v' lists', (s.promote h c slab).Agrees ctx
      (Function.update views h v') lists' roster allocs none ∧
      v'.phase = v.phase ∧ v'.pending = v.pending ∧ v'.hand = [] ∧ v'.header = v.header ∧
      v'.queues .full c = v.queues .full c ∧
      (v'.bins = v.bins ∨ (v.bins c = none ∧ v'.bins = Function.update v.bins c (some slab))) := by
  have hslab : slab ∈ v.hand := by simp [hhand]
  unfold HeapSys.promote
  by_cases hempty : (s.heap h).bins c = none
  · rw [if_pos hempty]
    rw [hagrees.own.bins] at hempty
    have hset := hagrees.setBin_some hslab hempty hphase hclass hid hnull.1 hnull.2
    exact ⟨_, _, hset, rfl, rfl, by simp [HeapView.setBin, HeapView.release, hhand], rfl, rfl,
      .inr ⟨hempty, rfl⟩⟩
  · rw [if_neg hempty]
    have hpush := hagrees.slabListPush .part hslab hphase hclass hid hcount
    exact ⟨_, _, hpush, rfl, rfl, by simp [HeapView.setQueue, HeapView.release, hhand], rfl,
      by simp [HeapView.setQueue, HeapView.release], .inl rfl⟩

/-- The active slab is as available as before, or is the slab that was promoted. -/
theorem HeapView.Ready.promoted (hready : v.Ready c) (hheader : v'.header = v.header)
    (hpos : 0 < (v.header slab).freeCount)
    (hbins : v'.bins = v.bins ∨ (v.bins c = none ∧
      v'.bins = Function.update v.bins c (some slab))) :
    v'.Ready c := by
  intro active hactive
  rw [hheader]
  rcases hbins with hbins | ⟨-, hbins⟩
  · exact hready active (by rw [← hbins, hactive])
  · rw [hbins, Function.update_self, Option.some.injEq] at hactive
    subst hactive
    exact hpos

/-- Reading a header anew keeps the active slab available, if that of the slab read is. -/
theorem HeapView.Ready.learn (hready : v.Ready c) {header : SlabHeader}
    (hslab : v.bins c = some slab → 0 < header.freeCount) : (v.learn slab header).Ready c := by
  intro active hactive
  by_cases heq : active = slab
  · subst heq
    simpa [HeapView.learn] using hslab hactive
  · simpa [HeapView.learn, heq] using hready active hactive

/-- The count of a slab may be put in doubt. -/
theorem HeapSys.Agrees.doubt (hagrees : s.Agrees ctx views lists roster allocs none) (slab : ℕ) :
    s.Agrees ctx views lists roster allocs (some slab) :=
  { hagrees with inv := hagrees.inv.doubt slab }

/-- The drain of `scan_full_list`. -/
theorem HeapSys.Agrees.drainSeen
    (hagrees : s.Agrees ctx (Function.update views h v) lists roster allocs none)
    (hhas : v.Has slab) (pending : Bool) :
    ∃ s' header, s.drainSeen slab pending = .ok s' ∧
      s'.Agrees ctx (Function.update views h (v.learn slab header)) lists roster allocs
        (some slab) ∧
      header.sizeClassIndex = (v.header slab).sizeClassIndex ∧
        header.heapId = (v.header slab).heapId := by
  cases pending with
  | true =>
    obtain ⟨next, header, heq, hagrees', hclass, hid, -⟩ := hagrees.drainRemote hhas
    exact ⟨_, header, heq, hagrees', hclass, hid⟩
  | false =>
    obtain ⟨hclass, hid, -, -⟩ := hagrees.header_eq hhas
    refine ⟨s, s.headers slab, rfl, ?_, hclass, hid⟩
    have hlearn : v.learn slab (s.headers slab) = v := by
      rw [HeapView.learn, hagrees.own.header slab hhas, Function.update_eq_self]
    rw [hlearn]
    exact hagrees.doubt slab

/-- What the scan does with one slab of the full queue. -/
theorem HeapSys.Agrees.scanSlab
    (hagrees : s.Agrees ctx (Function.update views h v) lists roster allocs none) (hcalm : v.Calm)
    (hready : v.Ready c) {before rest : List ℕ} (hqueue : v.queues .full c = before ++ slab :: rest)
    (pending : Bool) :
    ∃ s' free v' lists', s.scanSlab h c slab pending = .ok (s', free) ∧
      s'.Agrees ctx (Function.update views h v') lists' roster allocs none ∧ v'.phase = .alive ∧
        v'.pending = [] ∧
      v'.Ready c ∧ (∃ before, v'.queues .full c = before ++ rest) ∧
      (free = true → v'.hand = [slab] ∧ (v'.header slab).isFullyFree = true) ∧
        (free = false → v'.hand = []) := by
  have hslab : slab ∈ v.queues .full c := by simp [hqueue]
  have hhas : v.Has slab := .inr (.inl ⟨_, _, hslab⟩)
  obtain ⟨hclass, hid⟩ := hagrees.queued hslab
  have hbin : v.bins c ≠ some slab := fun hbin =>
    hagrees.notMem_queue (.inl ⟨c, hbin⟩) .full c hslab
  have herase : (v.queues .full c).erase slab = before ++ rest := by
    have hnodup := hagrees.inv.separate.nodup (.queue ⟨h, .full, c⟩)
    rw [hagrees.own.queues, hqueue] at hnodup
    rw [hqueue, erase_middle hnodup]
  obtain ⟨s₁, header, hdrain, hagrees₁, hclass₁, hid₁⟩ := hagrees.drainSeen hhas pending
  have hready₁ : (v.learn slab header).Ready c := hready.learn fun hactive => absurd hactive hbin
  have hheader₁ : (v.learn slab header).header slab = header.ownPart := by simp [HeapView.learn]
  have hhas₁ : (v.learn slab header).Has slab := hhas
  have hsame : (s₁.headers slab).ownPart = header.ownPart :=
    (hagrees₁.own.header slab hhas₁).trans hheader₁
  have hfull := SlabHeader.isFullyFree_congr hsame
  have hcount := (SlabHeader.ownPart_congr hsame).2.2.1
  simp only [HeapSys.scanSlab, hdrain, bind, Except.bind, hfull, hcount]
  by_cases hfree : header.isFullyFree = true
  · obtain ⟨links, -, hremove, hagrees₂⟩ :=
      hagrees₁.slabListRemove (show slab ∈ (v.learn slab header).queues .full c
      from hslab) (.inr rfl)
    refine ⟨_, true, _, _, by rw [if_pos hfree, hremove], hagrees₂, hcalm.alive, hcalm.pending,
      hready₁, ?_, ?_, by simp⟩
    · exact ⟨before, by simpa [HeapView.grab, HeapView.setQueue, HeapView.learn] using herase⟩
    · intro _
      refine ⟨?_, ?_⟩
      · change slab :: v.hand = _
        rw [hcalm.hand]
      · change ((v.learn slab header).header slab).isFullyFree = true
        rw [hheader₁]
        exact hfree
  · rw [if_neg hfree]
    by_cases hpos : 0 < header.freeCount
    · obtain ⟨links, -, hremove, hagrees₂⟩ :=
        hagrees₁.slabListRemove (show slab ∈ (v.learn slab header).queues .full c
        from hslab) (.inr rfl)
      have hpart := hagrees₁.part_count hhas₁ (by rw [hheader₁]; simpa using hfree)
        (by rw [hheader₁]; exact hpos)
      obtain ⟨v', lists', hagrees', hphase, hpending, hhand, hheader', hfulls, hbins⟩ :=
        hagrees₂.promote
        (show slab :: v.hand = [slab] by rw [hcalm.hand]) (show v.phase ≠ .gone from hcalm.phase_ne)
        (show ((v.learn slab header).header slab).sizeClassIndex =
          c by rw [hheader₁]; exact hclass₁.trans hclass)
        (show ((v.learn slab header).header slab).heapId =
          v.id by rw [hheader₁]; exact hid₁.trans hid) hpart
        (by simp [HeapView.grab])
      refine ⟨_, false, v', lists', by rw [if_pos hpos, hremove], hagrees',
        hphase.trans hcalm.alive,
        hpending.trans hcalm.pending, ?_, ⟨before, ?_⟩, by simp, fun _ => hhand⟩
      · refine HeapView.Ready.promoted (v := v.learn slab header) hready₁ hheader' ?_ hbins
        rw [hheader₁]
        exact hpos
      · rw [hfulls]
        simpa [HeapView.grab, HeapView.setQueue, HeapView.learn] using herase
    · have hsettled := hagrees₁.settle hhas₁ fun queue' c' hin => by
        obtain ⟨rfl, rfl⟩ := hagrees.queue_unique hslab hin
        rw [hheader₁]
        exact Nat.eq_zero_of_not_pos hpos
      exact ⟨s₁, false, _, lists, by rw [if_neg hpos], hsettled, hcalm.alive,
        hcalm.pending, hready₁,
        ⟨before ++ [slab], by simpa [HeapView.learn] using hqueue⟩, by simp, fun _ => hcalm.hand⟩

/-- `try_partial` behind an empty bin. -/
theorem HeapSys.Agrees.tryPartial
    (hagrees : s.Agrees ctx (Function.update views h v) lists roster allocs none) (hcalm : v.Calm)
    (hempty : v.bins c = none) :
    ∃ s' found v' lists', s.tryPartial h c = (s', found) ∧
      s'.Agrees ctx (Function.update views h v') lists' roster allocs none ∧ v'.Calm ∧
      (found = true → ∃ slab, v'.bins c = some slab ∧ 0 < (v'.header slab).freeCount) ∧
        (found = false → v' = v) := by
  cases hqueue : v.queues .part c with
  | nil =>
    refine ⟨s, false, v, lists, ?_, hagrees, hcalm, by simp, fun _ => rfl⟩
    simp only [HeapSys.tryPartial, hagrees.slabListPop_nil hqueue]
  | cons slab rest =>
    have hslab : slab ∈ v.queues .part c := by simp [hqueue]
    obtain ⟨hclass, hid⟩ := hagrees.queued hslab
    have hcount := hagrees.queue_count hslab
    obtain ⟨links, hpop, hagrees₁⟩ := hagrees.slabListPop hqueue
    have hset := hagrees₁.setBin_some (c := c)
      (List.mem_cons_self : slab ∈ slab :: _) hempty hcalm.phase_ne hclass hid
      (by simp [HeapView.grab]) (by simp [HeapView.grab])
    refine ⟨_, true, _, _, by simp only [HeapSys.tryPartial, hpop], hset,
      ⟨hcalm.alive, ?_, hcalm.pending⟩,
      fun _ => ⟨slab, by simp [HeapView.setBin], hcount.1⟩, by simp⟩
    simp [HeapView.setBin, HeapView.release, HeapView.grab, HeapView.setQueue, hcalm.hand]

/-- `retire_active` of an exhausted slab. -/
theorem HeapSys.Agrees.retireActive
    (hagrees : s.Agrees ctx (Function.update views h v) lists roster allocs none) (hcalm : v.Calm)
    (hslab : v.bins c = some slab) (hzero : (v.header slab).freeCount = 0) :
    ∃ v' lists', (s.retireActive h c).Agrees ctx
      (Function.update views h v') lists' roster allocs none ∧ v'.Calm ∧ v'.bins c = none := by
  obtain ⟨hclass, hid⟩ := hagrees.active hslab
  have hpush := (hagrees.setBin_none hslab).slabListPush .full (c := c)
    (List.mem_cons_self : slab ∈ slab :: _)
    hcalm.phase_ne hclass hid hzero
  have heq : s.retireActive h c = (s.setBin h c none).slabListPush ⟨h, .full, c⟩ slab := by
    simp [HeapSys.retireActive, hagrees.own.bins, hslab]
  rw [heq]
  refine ⟨_, _, hpush, ⟨hcalm.alive, ?_,
    hcalm.pending⟩, by simp [HeapView.setQueue, HeapView.release, HeapView.grab, HeapView.setBin]⟩
  simp [HeapView.setQueue, HeapView.release, HeapView.grab, HeapView.setBin, hcalm.hand]

/-- A slab in hand that is not fully free is queued by what it has available. -/
theorem HeapSys.Agrees.enqueue
    (hagrees : s.Agrees ctx (Function.update views h v) lists roster allocs none)
    (hslab : slab ∈ v.hand) (hphase : v.phase ≠ .gone) (hclass : (v.header slab).sizeClassIndex = c)
    (hid : (v.header slab).heapId = v.id) (hfree : (v.header slab).isFullyFree = false) :
    ∃ queue lists', (s.enqueue h c slab).Agrees ctx
      (Function.update views h ((v.release slab).setQueue queue c (slab :: v.queues queue c)))
      lists' roster allocs
      none := by
  have hcount := (hagrees.header_eq (.inr (.inr hslab))).2.2.1
  unfold HeapSys.enqueue
  rw [hcount]
  by_cases hpos : 0 < (v.header slab).freeCount
  · rw [if_pos hpos]
    have hpart := hagrees.part_count (.inr (.inr hslab)) hfree hpos
    exact ⟨.part, _, hagrees.slabListPush _ hslab hphase hclass hid hpart⟩
  · rw [if_neg hpos]
    exact ⟨.full, _, hagrees.slabListPush .full hslab hphase hclass hid
      (Nat.eq_zero_of_not_pos hpos)⟩

/-- Inside `try_adopt`: the bin stays empty until a slot is found, which is then the thread's. -/
structure HeapView.Adopting (layout : Layout) (c : ℕ) (result : Option ℕ) (v : HeapView) :
    Prop where
  alive : v.phase = .alive
  empty : result = none → v.bins c = none
  pending : v.pending = withResult result layout []

/-- What `try_adopt` does with a slab it took over that is not fully free. -/
theorem HeapSys.Agrees.useAdopted
    (hagrees : s.Agrees ctx (Function.update views h v) lists roster allocs none)
    {result : Option ℕ} (hadopting : v.Adopting layout c result)
    (hlayout : classIndex layout = some c) (hsize : 1 ≤ layout.size) {rest : List ℕ}
    (hhand : v.hand = slab :: rest) (hclass : (v.header slab).sizeClassIndex = c)
    (hid : (v.header slab).heapId = v.id) (hfree : (v.header slab).isFullyFree = false)
    (hnull : v.next slab = none ∧ v.prev slab = none) :
    ∃ s' result' v' lists' allocs', s.useAdopted h c slab result = (s', result') ∧
      s'.Agrees ctx (Function.update views h v') lists' roster allocs' none ∧
        v'.Adopting layout c result' ∧
      v'.hand = rest ∧ v'.next = v.next ∧ ∀ p, p ≠ slab → v'.header p = v.header p := by
  have hslab : slab ∈ v.hand := by simp [hhand]
  have hphase : v.phase ≠ .gone := by simp [hadopting.alive]
  unfold HeapSys.useAdopted
  cases result with
  | some ptr =>
    obtain ⟨queue, lists', henqueue⟩ := hagrees.enqueue hslab hphase hclass hid hfree
    refine ⟨_, some ptr, _, lists', allocs, rfl, henqueue,
      ⟨hadopting.alive, by simp, hadopting.pending⟩, ?_, rfl, fun _ _ => rfl⟩
    simp [HeapView.setQueue, HeapView.release, hhand]
  | none =>
    have hempty := hadopting.empty rfl
    have hpending := hadopting.pending
    rw [withResult_none] at hpending
    rcases hagrees.slabAlloc (.inr hslab) (by rw [hclass]; exact hlayout) hsize with ⟨halloc, -⟩ |
      ⟨ptr, header, halloc, -, hagrees₁, hclass₁, hid₁⟩
    · simp only [halloc]
      obtain ⟨queue, lists', henqueue⟩ := hagrees.enqueue hslab hphase hclass hid hfree
      refine ⟨_, none, _, lists', allocs, rfl, henqueue,
        ⟨hadopting.alive, fun _ => hempty, hpending⟩, ?_, rfl, fun _ _ => rfl⟩
      simp [HeapView.setQueue, HeapView.release, hhand]
    · simp only [halloc]
      have hset := hagrees₁.setBin_some (c := c) hslab hempty hphase
        (by simpa [HeapView.learn] using hclass₁.trans hclass)
        (by simpa [HeapView.learn] using hid₁.trans hid) hnull.1 hnull.2
      refine ⟨_, some ptr, _, _, _, rfl, hset, ⟨hadopting.alive, by simp, ?_⟩, ?_,
        rfl, fun p hp => ?_⟩
      · change ⟨ptr, layout⟩ :: v.pending = _
        rw [hpending, withResult_some]
      · simp [HeapView.setBin, HeapView.release, HeapView.learn, hhand]
      · simp [HeapView.setBin, HeapView.release, HeapView.learn, hp]

/-- A request has been served, or there was no memory for it. -/
structure HeapView.Served (layout : Layout) (result : Option ℕ) (v : HeapView) : Prop where
  alive : v.phase = .alive
  hand : v.hand = []
  pending : v.pending = withResult result layout []

/-- A page of the pool becomes the active slab behind an empty bin, and serves the request. -/
theorem HeapSys.Agrees.openSlab
    (hagrees : s.Agrees ctx (Function.update views h v) lists roster allocs none) (hcalm : v.Calm)
    (hempty : v.bins c = none) (hclass : c < numClasses) (hlayout : classIndex layout = some c)
    (hsize : 1 ≤ layout.size) (hgives : s.pool.Gives pool (some page)) :
    ∃ s' ptr v' lists' allocs', HeapSys.openSlab { s with pool := pool } h c page = (s', some ptr) ∧
      s'.Agrees ctx (Function.update views h v') lists' roster allocs' none ∧
        v'.Served layout (some ptr) := by
  have htaken := hagrees.takeSlab hcalm.phase_ne hgives hclass
  have hpage : page ∈ ((v.learn page (SlabHeader.init c v.id)).grab page).hand := List.mem_cons_self
  have hheader : ((v.learn page (SlabHeader.init c v.id)).grab page).header page =
      (SlabHeader.init c v.id).ownPart := by simp [HeapView.learn, HeapView.grab]
  unfold HeapSys.openSlab
  rw [show (HeapSys.heap { s with pool := pool } h).id = v.id from hagrees.own.id]
  rcases htaken.slabAlloc (.inr hpage) (by rw [hheader]; exact hlayout) hsize with ⟨-, hzero⟩ |
    ⟨ptr, header, halloc, -, hagrees₁, hclass₁, hid₁⟩
  · rw [hheader, SlabHeader.ownPart_freeCount, (SlabHeader.init_free c v.id).1] at hzero
    exact absurd hzero (SlabHeader.init_free c v.id).2.ne'
  · rw [halloc]
    rw [hheader] at hclass₁ hid₁
    have hset := hagrees₁.setBin_some (c := c) hpage hempty hcalm.phase_ne
      (by simpa [HeapView.learn, SlabHeader.init] using hclass₁)
      (by simpa [HeapView.learn, HeapView.grab, SlabHeader.init] using hid₁)
      (by simp [HeapView.grab, HeapView.learn]) (by simp [HeapView.grab, HeapView.learn])
    refine ⟨_, ptr, _, _, _, rfl, hset.count h _, ⟨hcalm.alive, ?_, ?_⟩⟩
    · simp [HeapView.setBin, HeapView.release, HeapView.learn, HeapView.grab, hcalm.hand]
    · change ⟨ptr, layout⟩ :: v.pending = _
      rw [hcalm.pending, withResult_some]

/-- A thread is freeing an allocation. -/
structure HeapView.Freeing (a : Allocation) (v : HeapView) : Prop where
  alive : v.phase = .alive
  hand : v.hand = []
  pending : v.pending = [a]

/-- What a free does with a queued slab of the heap. -/
theorem HeapSys.Agrees.freeOwn
    (hagrees : s.Agrees ctx (Function.update views h v) lists roster allocs none)
    (hfreeing : v.Freeing a) (hclass : classIndex a.layout = some c)
    (hslab : slabMask a.ptr ∈ v.queues queue c) :
    ∃ s' free v' lists' allocs', s.freeOwn h c (slabMask a.ptr) a.ptr = .ok (s', free) ∧
      s'.Agrees ctx (Function.update views h v') lists' roster allocs' none ∧ v'.phase = .alive ∧
        v'.pending = [] ∧
      (free = true → v'.hand = [slabMask a.ptr] ∧ (v'.header (slabMask a.ptr)).isFullyFree = true) ∧
      (free = false → v'.hand = []) := by
  have hpending : a ∈ v.pending := by simp [hfreeing.pending]
  have hhas : v.Has (slabMask a.ptr) := .inr (.inl ⟨_, _, hslab⟩)
  have hqueue := hagrees.queue_count hslab
  obtain ⟨hclass₀, hid₀⟩ := hagrees.queued hslab
  obtain ⟨hheader₀, hheapId₀, -, -⟩ := hagrees.header_eq hhas
  obtain ⟨hagrees₁, hcount⟩ := hagrees.deallocLocal hpending hclass hhas
  have hnil : v.pending.erase a = [] := by simp [hfreeing.pending]
  rw [hnil] at hagrees₁
  have hheaders : (s.deallocLocal (slabMask a.ptr) a.ptr).headers (slabMask a.ptr) =
      (s.headers (slabMask a.ptr)).deallocLocal a.ptr := by simp [HeapSys.deallocLocal]
  unfold HeapSys.freeOwn
  simp only [hheaders]
  have hclass₁ : ((s.headers (slabMask a.ptr)).deallocLocal a.ptr).sizeClassIndex = c :=
    hheader₀.trans hclass₀
  have hid₁ : ((s.headers (slabMask a.ptr)).deallocLocal a.ptr).heapId = v.id := hheapId₀.trans hid₀
  generalize (s.headers (slabMask a.ptr)).deallocLocal a.ptr = header at *
  generalize s.deallocLocal (slabMask a.ptr) a.ptr = s₁ at *
  generalize hv₁ : { v.learn (slabMask a.ptr) header with pending := [] } = v₁ at *
  have hheader₁ : v₁.header (slabMask a.ptr) = header.ownPart := by simp [← hv₁, HeapView.learn]
  have hslab₁ : slabMask a.ptr ∈ v₁.queues queue c := by simpa [← hv₁, HeapView.learn] using hslab
  have hhas₁ : v₁.Has (slabMask a.ptr) := .inr (.inl ⟨_, _, hslab₁⟩)
  have hphase₁ : v₁.phase = .alive := by simpa [← hv₁, HeapView.learn] using hfreeing.alive
  have hhand₁ : v₁.hand = [] := by simpa [← hv₁, HeapView.learn] using hfreeing.hand
  have hpending₁ : v₁.pending = [] := by simp [← hv₁]
  by_cases hfree : header.isFullyFree = true
  · rw [if_pos hfree]
    obtain ⟨links, -, hremove, hagrees₂⟩ := hagrees₁.slabListRemove hslab₁ (.inr rfl)
    refine ⟨_, true, _, _, _, by simp only [hremove, bind, Except.bind], hagrees₂, hphase₁,
      hpending₁, fun _ => ?_, by simp⟩
    refine ⟨?_, ?_⟩
    · change slabMask a.ptr :: v₁.hand = _
      rw [hhand₁]
    · change (v₁.header (slabMask a.ptr)).isFullyFree = true
      rw [hheader₁]
      exact hfree
  · rw [if_neg hfree]
    have hpart := hagrees₁.part_count hhas₁ (by rw [hheader₁]; simpa using hfree)
      (by rw [hheader₁, SlabHeader.ownPart_freeCount, hcount]; omega)
    by_cases hone : header.freeCount = 1
    · rw [if_pos hone]
      obtain ⟨links, -, hremove, hagrees₂⟩ := hagrees₁.slabListRemove hslab₁ (.inr rfl)
      obtain ⟨v', lists', hagrees', hphase, hpending', hhand, -⟩ := hagrees₂.promote
        (show slabMask a.ptr :: v₁.hand = [slabMask a.ptr] by rw [hhand₁])
        (show v₁.phase ≠ .gone by simp [hphase₁])
        (show (v₁.header (slabMask a.ptr)).sizeClassIndex = c by rw [hheader₁]; exact hclass₁)
        (show (v₁.header (slabMask a.ptr)).heapId = v₁.id by rw [hheader₁, ← hv₁]; exact hid₁) hpart
        (by simp [HeapView.grab])
      exact ⟨_, false, v', lists', _, by simp only [hremove, bind, Except.bind], hagrees',
        hphase.trans hphase₁, hpending'.trans hpending₁, by simp, fun _ => hhand⟩
    · rw [if_neg hone]
      have hsettled := hagrees₁.settle hhas₁ fun queue' c' hin => by
        obtain ⟨rfl, rfl⟩ := hagrees₁.queue_unique hslab₁ hin
        cases queue' with
        | full =>
          have hzero : (v.header (slabMask a.ptr)).freeCount = 0 := hqueue
          omega
        | part => exact hpart
      exact ⟨s₁, false, v₁, lists, _, rfl, hsettled, hphase₁, hpending₁, by simp, fun _ => hhand₁⟩

end ClMalloc
