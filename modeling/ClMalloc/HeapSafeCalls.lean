import ClMalloc.HeapRefill
import ClMalloc.HeapSafe

/-!
# `alloc`, `dealloc` and `drop` are safe

A request ends with its slot or region in the hands of the thread, or with no memory; a free
ends with the allocation gone; a heap that ends has given up all its slabs.
-/

namespace ClMalloc

open Threads Intrusive Placement

variable {ctx : HeapContext} {views : ℕ → HeapView} {h c slab ptr : ℕ} {v v' : HeapView}
  {a : Allocation} {layout : Layout} {queue : Queue}

/-- An active slab with an available slot. -/
def HeapView.Stocked (v : HeapView) (c : ℕ) : Prop :=
  ∃ slab, v.bins c = some slab ∧ 0 < (v.header slab).freeCount

/-- The part of `alloc` behind an empty bin is safe if the recursive call is. -/
theorem HeapProg.safe_refill {again : HeapProg (Option ℕ)} (hcalm : v.Calm)
    (hempty : v.bins c = none) (hrange : c < numClasses) (hlayout : classIndex layout = some c)
    (hsize : 1 ≤ layout.size)
    (hagain : ∀ v' : HeapView, v'.Calm → v'.Stocked c →
      again.Safe heapRules h (fun result v' => v'.Served layout result) v') :
    (HeapProg.refill h c again).Safe heapRules h (fun result v' => v'.Served layout result) v := by
  refine Prog.Safe.bind (HeapProg.safe_tryPartial hcalm hempty) ?_
  rintro found v₁ ⟨hcalm₁, hfound₁, hkept₁⟩
  cases found with
  | true => exact hagain v₁ hcalm₁ (hfound₁ rfl)
  | false =>
    obtain rfl := hkept₁ rfl
    have hready : v₁.Ready c := fun slab hslab => by
      rw [hempty] at hslab
      cases hslab
    refine Prog.Safe.bind (HeapProg.safe_scanFullList hcalm hready) ?_
    rintro - v₂ ⟨hcalm₂, hready₂⟩
    refine Prog.Safe.bind (safe_readBin (fun r v' => r = v₂.bins c ∧ v₂ = v') ⟨rfl, rfl⟩) ?_
    rintro active _ ⟨rfl, rfl⟩
    by_cases hactive : v₂.bins c = none
    · rw [if_neg (not_not.mpr hactive)]
      refine Prog.Safe.bind (HeapProg.safe_tryPartial hcalm₂ hactive) ?_
      rintro found v₃ ⟨hcalm₃, hfound₃, hkept₃⟩
      cases found with
      | true => exact hagain v₃ hcalm₃ (hfound₃ rfl)
      | false =>
        obtain rfl := hkept₃ rfl
        exact HeapProg.safe_requestSlab hcalm₂ hactive hrange hlayout hsize
    · rw [if_pos hactive]
      obtain ⟨slab, hslab⟩ := Option.ne_none_iff_exists'.mp hactive
      exact hagain v₂ hcalm₂ ⟨slab, hslab, hready₂ slab hslab⟩

/-- `Slab::alloc` on the active slab serves the request, or the slab has nothing available. -/
theorem HeapProg.safe_allocActive (hcalm : v.Calm) (hslab : v.bins c = some slab)
    (hlayout : classIndex layout = some c) (hsize : 1 ≤ layout.size) :
    (atomically fun s => .ok (s.allocActive h c slab) : HeapProg (Option ℕ)).Safe heapRules h
      (fun result v' =>
      (result ≠ none → v'.Served layout result) ∧
        (result = none → v = v' ∧ (v.header slab).freeCount = 0)) v := by
  refine safe_act _ fun ctx s views lists roster allocs hagrees => ?_
  have hclass := (hagrees.active hslab).1
  unfold HeapSys.allocActive
  rcases hagrees.slabAlloc (.inl ⟨c, hslab⟩) (by rw [hclass]; exact hlayout) hsize with ⟨halloc,
    hzero⟩ | ⟨ptr, header, halloc, -, hagrees', -⟩
  · exact ⟨s, none, v, lists, roster, allocs, by rw [halloc], hagrees, by simp,
      fun _ => ⟨rfl, hzero⟩⟩
  · refine ⟨_, some ptr, _, lists, roster, _, by rw [halloc], hagrees'.count h _,
      fun _ => ⟨hcalm.alive, hcalm.hand, ?_⟩, by simp⟩
    change ⟨ptr, layout⟩ :: v.pending = _
    rw [hcalm.pending, withResult_some]

/-- `alloc` on a stocked bin is safe, and needs no recursive call. -/
theorem HeapProg.safe_allocStocked (fuel : ℕ) (hcalm : v.Calm) (hstocked : v.Stocked c)
    (hlayout : classIndex layout = some c) (hsize : 1 ≤ layout.size) :
    (HeapProg.allocClass h c (fuel + 1)).Safe heapRules h
      (fun result v' => v'.Served layout result) v := by
  obtain ⟨slab, hslab, hpos⟩ := hstocked
  rw [HeapProg.allocClass]
  refine Prog.Safe.bind (safe_readBin (fun r v' => r = some slab ∧ v = v') ⟨hslab, rfl⟩) ?_
  rintro active _ ⟨rfl, rfl⟩
  refine Prog.Safe.bind (HeapProg.safe_allocActive hcalm hslab hlayout hsize) ?_
  rintro result v₁ ⟨hserved, hnone⟩
  cases result with
  | some ptr => exact Prog.Safe.pure (hserved (by simp))
  | none => exact absurd (hnone rfl).2 hpos.ne'

/-- `Heap::alloc` for a class is safe: the recursion is one deep. -/
theorem HeapProg.safe_allocClass (hcalm : v.Calm) (hrange : c < numClasses)
    (hlayout : classIndex layout = some c) (hsize : 1 ≤ layout.size) :
    (HeapProg.allocClass h c 2).Safe heapRules h (fun result v' => v'.Served layout result) v := by
  have hagain (v' : HeapView) (hcalm' : v'.Calm) (hstocked : v'.Stocked c) :
      (HeapProg.allocClass h c 1).Safe heapRules h (fun result v' => v'.Served layout result) v' :=
    HeapProg.safe_allocStocked 0 hcalm' hstocked hlayout hsize
  rw [HeapProg.allocClass]
  refine Prog.Safe.bind (safe_readBin (fun r v' => r = v.bins c ∧ v = v') ⟨rfl, rfl⟩) ?_
  rintro active _ ⟨rfl, rfl⟩
  cases hslab : v.bins c with
  | none => exact HeapProg.safe_refill hcalm hslab hrange hlayout hsize hagain
  | some slab =>
    refine Prog.Safe.bind (HeapProg.safe_allocActive hcalm hslab hlayout hsize) ?_
    rintro result v₁ ⟨hserved, hnone⟩
    cases result with
    | some ptr => exact Prog.Safe.pure (hserved (by simp))
    | none =>
      obtain ⟨rfl, -⟩ := hnone rfl
      refine Prog.Safe.bind (safe_try (fun _ v' => v'.Calm ∧ v'.bins c = some slab) ?_) ?_
      · intro ctx s views lists roster allocs hagrees
        obtain ⟨next, header, heq, hagrees', -⟩ := hagrees.drainRemote (.inl ⟨c, hslab⟩)
        refine ⟨_, _, lists, roster, allocs, heq,
          hagrees'.settle (.inl ⟨c, hslab⟩) fun queue c' hin => ?_,
          ⟨hcalm.alive, hcalm.hand, hcalm.pending⟩, hslab⟩
        exact absurd hin (hagrees.notMem_queue (.inl ⟨c, hslab⟩) queue c')
      rintro - v₂ ⟨hcalm₂, hslab₂⟩
      refine Prog.Safe.bind (HeapProg.safe_allocActive hcalm₂ hslab₂ hlayout hsize) ?_
      rintro result v₃ ⟨hserved₃, hnone₃⟩
      cases result with
      | some ptr => exact Prog.Safe.pure (hserved₃ (by simp))
      | none =>
        obtain ⟨rfl, hzero⟩ := hnone₃ rfl
        refine Prog.Safe.bind (safe_put (fun _ v' => v'.Calm ∧ v'.bins c = none) ?_) ?_
        · intro ctx s views lists roster allocs hagrees
          obtain ⟨v', lists', hagrees', hpost⟩ := hagrees.retireActive hcalm₂ hslab₂ hzero
          exact ⟨v', lists', roster, allocs, hagrees', hpost⟩
        rintro - v₄ ⟨hcalm₄, hempty₄⟩
        exact HeapProg.safe_refill hcalm₄ hempty₄ hrange hlayout hsize hagain

/-- `Heap::alloc` is safe. -/
theorem HeapProg.safe_alloc (hcalm : v.Calm) (hsize : 1 ≤ layout.size) :
    (HeapProg.alloc h layout).Safe heapRules h (fun result v' => v'.Served layout result) v := by
  unfold HeapProg.alloc
  cases hlayout : classIndex layout with
  | some c => exact HeapProg.safe_allocClass hcalm (classIndex_lt hlayout) hlayout hsize
  | none =>
    refine safe_asking fun ctx s views reply hholds hview => ?_
    obtain ⟨lists, roster, allocs, hagrees⟩ := hholds
    have hfocus : Function.update views h v = views := by rw [← hview, Function.update_eq_self]
    rw [← hfocus] at hagrees
    unfold HeapSys.openLarge
    cases halloc : s.pool.allocLargeToEnd layout.size layout.align reply with
    | none =>
      refine .inr ⟨.badReply, rfl, rfl, ?_⟩
      rintro rfl
      simp [PagePool.allocLargeToEnd, PoolCore.osAllocLarge] at halloc
    | some found =>
      obtain ⟨pool, result⟩ := found
      cases result with
      | none =>
        exact .inl ⟨_, none, v, rfl, ⟨lists, roster, allocs, hagrees.allocLarge_none halloc⟩,
          hcalm.alive, hcalm.hand, hcalm.pending⟩
      | some ptr =>
        have hagrees' := (hagrees.allocLarge hlayout hsize halloc).count h
          (·.onLargeAlloc layout.size)
        refine .inl ⟨_, some ptr, _, rfl, ⟨lists, roster, _, hagrees'⟩, hcalm.alive, hcalm.hand, ?_⟩
        change ⟨ptr, layout⟩ :: v.pending = _
        rw [hcalm.pending, withResult_some]

/-- A slab that carries the id of a live heap, but is not its active slab, is in one of its
queues. -/
theorem HeapSys.Agrees.queue_of_id {s : HeapSys} {lists : SlabPlace → List ℕ} {roster : List ℕ}
    {allocs : List Allocation}
    (hagrees : s.Agrees ctx (Function.update views h v) lists roster allocs none)
    (hfreeing : v.Freeing a) (hclass : classIndex a.layout = some c)
    (hactive : v.bins c ≠ some (slabMask a.ptr))
    (hid : (s.headers (slabMask a.ptr)).heapId = (s.heap h).id) :
    ∃ queue, slabMask a.ptr ∈ v.queues queue c := by
  have hown := hagrees.own
  have hheap : h ∈ ctx.handles := by
    rw [hagrees.handles, Function.update_self]
    exact hfreeing.alive
  obtain ⟨hheld, hslab⟩ := hagrees.slab_of_pending
    (show a ∈ v.pending by simp [hfreeing.pending]) hclass
  rcases hheld with hin | ⟨c', hin⟩
  · obtain ⟨place, hplace⟩ := (hagrees.inv.inUse _).mp hin
    have hsame {h' c' : ℕ} (howner : place.owner = some (h', c')) : h' = h ∧ c' = c := by
      have hbelongs := hagrees.inv.belongs place h' c' howner _ hplace
      refine ⟨hagrees.inv.idsDiffer h' hbelongs.heap h (hagrees.inv.alive h hheap)
        (hbelongs.heapId.symm.trans hid), ?_⟩
      rw [← hbelongs.classIdx, hslab]
    cases place with
    | bin h' c' =>
      obtain ⟨rfl, rfl⟩ := hsame rfl
      rw [hagrees.inv.mem_bin, hown.bins] at hplace
      exact absurd hplace hactive
    | queue head =>
      obtain ⟨h', queue, c'⟩ := head
      obtain ⟨rfl, rfl⟩ := hsame rfl
      exact ⟨queue, by rwa [← hown.queues]⟩
    | hand =>
      obtain ⟨h', hhand⟩ := (hagrees.hands.mem_iff _).mp hplace
      by_cases hh : h' = h
      · subst hh
        simp [hfreeing.hand] at hhand
      · exact absurd hid ((hagrees.carried h' _ hhand).others h hheap (Ne.symm hh))
  · exact absurd hid ((hagrees.inv.orphans c' _ hin).noHeap h hheap)

/-- `Heap::dealloc` is safe: the tests that tell the two paths apart are stable. -/
theorem HeapProg.safe_dealloc (hfreeing : v.Freeing a) :
    (HeapProg.dealloc h a.ptr a.layout).Safe heapRules h (fun _ v' => v'.Calm) v := by
  have hpending : a ∈ v.pending := by simp [hfreeing.pending]
  have hnil : v.pending.erase a = [] := by simp [hfreeing.pending]
  unfold HeapProg.dealloc
  cases hclass : classIndex a.layout with
  | none =>
    refine Prog.Safe.bind (safe_count (fun _ v' => v = v') h _ rfl) ?_
    rintro - _ rfl
    refine safe_put _ fun ctx s views lists roster allocs hagrees => ?_
    exact ⟨_, lists, roster, _, hagrees.deallocLarge hpending hclass, hfreeing.alive,
      hfreeing.hand, hnil⟩
  | some c =>
    refine Prog.Safe.bind (safe_count (fun _ v' => v = v') h _ rfl) ?_
    rintro - _ rfl
    refine Prog.Safe.bind (safe_readBin (fun r v' => r = v.bins c ∧ v = v') ⟨rfl, rfl⟩) ?_
    rintro active _ ⟨rfl, rfl⟩
    by_cases hactive : v.bins c = some (slabMask a.ptr)
    · rw [if_pos hactive]
      refine safe_put _ fun ctx s views lists roster allocs hagrees => ?_
      have hfreed := (hagrees.deallocLocal hpending hclass (.inl ⟨c, hactive⟩)).1
      refine ⟨_, lists, roster, _, hfreed.settle (.inl ⟨c, hactive⟩) fun queue c' hin => ?_,
        hfreeing.alive, hfreeing.hand, hnil⟩
      exact absurd hin (hagrees.notMem_queue (.inl ⟨c, hactive⟩) queue c')
    · rw [if_neg hactive]
      refine Prog.Safe.bind (safe_read (fun own v' =>
        (own = true → ∃ queue, slabMask a.ptr ∈ v.queues queue c) ∧ v = v') ?_) ?_
      · intro ctx s views lists roster allocs hagrees
        exact ⟨fun hid => hagrees.queue_of_id hfreeing hclass hactive (of_decide_eq_true hid), rfl⟩
      rintro own _ ⟨hqueue, rfl⟩
      cases own with
      | true =>
        obtain ⟨queue, hslab⟩ := hqueue rfl
        refine Prog.Safe.bind (safe_act (fun free v' => v'.phase = .alive ∧ v'.pending = [] ∧
          (free = true → v'.hand = [slabMask a.ptr] ∧
            (v'.header (slabMask a.ptr)).isFullyFree = true) ∧
          (free = false → v'.hand = [])) ?_) ?_
        · intro ctx s views lists roster allocs hagrees
          obtain ⟨s', free, v', lists', allocs', heq, hagrees', hpost⟩ :=
            hagrees.freeOwn hfreeing hclass hslab
          exact ⟨s', free, v', lists', roster, allocs', heq, hagrees', hpost⟩
        rintro free v₁ ⟨halive, hpending₁, hfree, hkept⟩
        cases free with
        | true =>
          obtain ⟨hhand, hfull⟩ := hfree rfl
          exact safe_cacheSlab _ hhand hfull ⟨halive, by simp [HeapView.release, hhand], hpending₁⟩
        | false => exact Prog.Safe.pure ⟨halive, hkept rfl, hpending₁⟩
      | false =>
        refine Prog.Safe.bind (safe_count (fun _ v' => v = v') h _ rfl) ?_
        rintro - _ rfl
        refine safe_put _ fun ctx s views lists roster allocs hagrees => ?_
        exact ⟨_, lists, roster, _, hagrees.deallocRemote hpending hclass, hfreeing.alive,
          hfreeing.hand, hnil⟩

/-- The heap is ending, with nothing in hand and no allocation obtained. -/
structure HeapView.Ending (v : HeapView) : Prop where
  ending : v.phase = .ending
  hand : v.hand = []
  pending : v.pending = []

/-- Places that were empty are empty. -/
structure HeapView.Shrinks (v v' : HeapView) : Prop where
  bins : ∀ c, v.bins c = none → v'.bins c = none
  queues : ∀ queue c, v.queues queue c = [] → v'.queues queue c = []

/-- Shrinking twice is shrinking. -/
theorem HeapView.Shrinks.trans {v₁ v₂ : HeapView} (hfirst : v.Shrinks v₁) (hrest : v₁.Shrinks v₂) :
    v.Shrinks v₂ :=
  ⟨fun c hc => hrest.bins c (hfirst.bins c hc),
    fun queue c hc => hrest.queues queue c (hfirst.queues queue c hc)⟩

/-- Giving up the slab in hand is safe and leaves the places of the heap as they are. -/
theorem HeapProg.safe_surrender (hending : v.phase = .ending) (hpending : v.pending = [])
    (hhand : v.hand = [slab]) :
    (HeapProg.surrender slab).Safe heapRules h (fun _ v' => v'.Ending ∧ v'.bins = v.bins ∧
      v'.queues = v.queues) v := by
  have hslab : slab ∈ v.hand := by simp [hhand]
  refine Prog.Safe.bind (safe_try (fun _ v' => ∃ header : SlabHeader, v' = v.learn slab header) ?_)
    ?_
  · intro ctx s views lists roster allocs hagrees
    obtain ⟨next, header, heq, hagrees', -⟩ := hagrees.drainRemote (.inr (.inr hslab))
    refine ⟨_, _, lists, roster, allocs, heq,
      hagrees'.settle (.inr (.inr hslab)) fun queue c' hin => ?_, header, rfl⟩
    exact absurd hin (hagrees.notMem_queue (.inr hslab) queue c')
  rintro - v₁ ⟨header, hv₁⟩
  have hhand₁ : v₁.hand = [slab] := by simpa [hv₁, HeapView.learn] using hhand
  have hleft : (v₁.release slab).Ending ∧ (v₁.release slab).bins = v.bins ∧
      (v₁.release slab).queues = v.queues := by
    refine ⟨⟨?_, ?_, ?_⟩, ?_, ?_⟩ <;> simp [hv₁, HeapView.release, HeapView.learn, hhand,
      hending, hpending]
  refine Prog.Safe.bind (safe_read (fun free v' => free = (v₁.header slab).isFullyFree ∧ v₁ = v')
    ?_) ?_
  · intro ctx s views lists roster allocs hagrees
    have hheader := hagrees.own.header slab (.inr (.inr (by simp [hhand₁])))
    exact ⟨by rw [← hheader]; rfl, rfl⟩
  rintro free _ ⟨rfl, rfl⟩
  by_cases hfree : (v₁.header slab).isFullyFree = true
  · rw [if_pos hfree]
    exact safe_cacheSlab _ hhand₁ hfree hleft
  · rw [if_neg hfree]
    refine safe_put _ fun ctx s views lists roster allocs hagrees => ?_
    obtain ⟨lists', hagrees'⟩ := hagrees.abandonSlab (show slab ∈ v₁.hand by simp [hhand₁])
      (show v₁.phase ≠ .alive by simp [hv₁, HeapView.learn, hending])
    exact ⟨_, lists', roster, allocs, hagrees', hleft⟩

/-- `retire_slab` of a heap that ends is safe. -/
theorem HeapProg.safe_retireSlab (hending : v.Ending) :
    (HeapProg.retireSlab h c).Safe heapRules h (fun _ v' => v'.Ending ∧ v.Shrinks v' ∧
      v'.bins c = none) v := by
  refine Prog.Safe.bind (safe_act (fun taken v' => v'.phase = .ending ∧ v'.pending = [] ∧
    v'.hand = taken.toList ∧ v.Shrinks v' ∧ v'.bins c = none) ?_) ?_
  · intro ctx s views lists roster allocs hagrees
    unfold HeapSys.takeActive
    rw [hagrees.own.bins]
    cases hbin : v.bins c with
    | none =>
      exact ⟨s, none, v, lists, roster, allocs, rfl, hagrees, hending.ending,
        hending.pending, hending.hand, ⟨fun _ hc => hc, fun _ _ hc => hc⟩, hbin⟩
    | some slab =>
      refine ⟨_, some slab, _, _, roster, allocs, rfl, hagrees.setBin_none hbin, hending.ending,
        hending.pending, ?_, ⟨fun c' hc => ?_, fun _ _ hc => hc⟩, ?_⟩
      · change slab :: v.hand = _
        rw [hending.hand]
        rfl
      · by_cases hcc : c' = c <;> simp [HeapView.grab, HeapView.setBin, hcc, hc]
      · simp [HeapView.grab, HeapView.setBin]
  rintro taken v₁ ⟨hphase, hpending, hhand, hshrinks, hbin⟩
  cases taken with
  | none => exact Prog.Safe.pure ⟨⟨hphase, hhand, hpending⟩, hshrinks, hbin⟩
  | some slab =>
    refine (HeapProg.safe_surrender hphase hpending hhand).mono ?_
    rintro - v₂ ⟨hending₂, hbins, hqueues⟩
    exact ⟨hending₂, hshrinks.trans ⟨fun c' hc => by rw [hbins, hc],
      fun queue c' hc => by rw [hqueues, hc]⟩, by rw [hbins, hbin]⟩

/-- `slab_list_pop` of a heap that ends takes the first slab of a queue. -/
theorem HeapProg.safe_popQueue (hending : v.Ending) {slabs : List ℕ}
    (hqueue : v.queues queue c = slabs) :
    (atomically fun s => .ok (s.popQueue ⟨h, queue, c⟩) : HeapProg (Option ℕ)).Safe heapRules h
      (fun popped v' =>
      popped = slabs.head? ∧ v'.phase = .ending ∧ v'.pending = [] ∧
        v'.hand = popped.toList ∧ v.Shrinks v' ∧ v'.queues queue c = slabs.tail) v := by
  refine safe_act _ fun ctx s views lists roster allocs hagrees => ?_
  unfold HeapSys.popQueue
  cases slabs with
  | nil =>
    rw [hagrees.slabListPop_nil hqueue]
    exact ⟨s, none, v, lists, roster, allocs, rfl, hagrees, rfl, hending.ending,
      hending.pending, hending.hand, ⟨fun _ hc => hc, fun _ _ hc => hc⟩, hqueue⟩
  | cons slab rest =>
    obtain ⟨links, hpop, hagrees'⟩ := hagrees.slabListPop hqueue
    rw [hpop]
    refine ⟨_, some slab, _, _, roster, allocs, rfl, hagrees', rfl, hending.ending,
      hending.pending, ?_, ⟨fun _ hc => hc, fun queue' c' hc => ?_⟩, ?_⟩
    · change slab :: v.hand = _
      rw [hending.hand]
      rfl
    · by_cases hsame : queue' = queue ∧ c' = c
      · rw [hsame.1, hsame.2, hqueue] at hc
        cases hc
      · simpa [HeapView.grab, HeapView.setQueue, hsame] using hc
    · simp [HeapView.grab, HeapView.setQueue]

/-- The loop of `drop` over a queue is safe and empties it. -/
theorem HeapProg.safe_dropQueue {fuel : ℕ} {slabs : List ℕ} (hending : v.Ending)
    (hqueue : v.queues queue c = slabs) (hfuel : slabs.length ≤ fuel) :
    (HeapProg.dropQueue ⟨h, queue, c⟩ fuel).Safe heapRules h
      (fun _ v' => v'.Ending ∧ v.Shrinks v' ∧ v'.queues queue c = []) v := by
  induction fuel generalizing v slabs with
  | zero =>
    have hnil := List.length_eq_zero_iff.mp (Nat.le_zero.mp hfuel)
    subst hnil
    rw [HeapProg.dropQueue]
    refine Prog.Safe.bind (HeapProg.safe_popQueue hending hqueue) ?_
    rintro popped v₁ ⟨rfl, hphase, hpending, hhand, hshrinks, hqueue₁⟩
    exact Prog.Safe.pure ⟨⟨hphase, hhand, hpending⟩, hshrinks, hqueue₁⟩
  | succ fuel ih =>
    rw [HeapProg.dropQueue]
    refine Prog.Safe.bind (HeapProg.safe_popQueue hending hqueue) ?_
    rintro popped v₁ ⟨rfl, hphase, hpending, hhand, hshrinks, hqueue₁⟩
    cases slabs with
    | nil => exact Prog.Safe.pure ⟨⟨hphase, hhand, hpending⟩, hshrinks, hqueue₁⟩
    | cons slab rest =>
      refine Prog.Safe.bind (HeapProg.safe_surrender hphase hpending hhand) ?_
      rintro - v₂ ⟨hending₂, hbins, hqueues⟩
      have hshrinks₂ : v.Shrinks v₂ :=
        hshrinks.trans ⟨fun c' hc => by rw [hbins, hc], fun queue c' hc => by rw [hqueues, hc]⟩
      refine (ih hending₂ (by rw [hqueues, hqueue₁]) (by simpa using hfuel)).mono ?_
      rintro - v₃ ⟨hending₃, hshrinks₃, hqueue₃⟩
      exact ⟨hending₃, hshrinks₂.trans hshrinks₃, hqueue₃⟩

/-- The pages in use are enough fuel to empty a queue. -/
theorem HeapProg.safe_queueFuel (v : HeapView) (queue : Queue) (c : ℕ) :
    (look (·.pool.inUse.length) : HeapProg ℕ).Safe heapRules h
      (fun fuel v' => (v.queues queue c).length ≤ fuel ∧ v = v') v := by
  refine safe_read _ fun ctx s views lists roster allocs hagrees => ?_
  have hlen := hagrees.inv.queue_length_le ⟨h, queue, c⟩
  rw [hagrees.own.queues] at hlen
  exact ⟨hlen, rfl⟩

/-- A class that is cleared stays so. -/
theorem HeapView.Cleared.mono (hcleared : v.Cleared c) (hshrinks : v.Shrinks v') : v'.Cleared c :=
  ⟨hshrinks.bins c hcleared.bin, fun queue => hshrinks.queues queue c (hcleared.queues queue)⟩

/-- One round of `drop` is safe and clears its class. -/
theorem HeapProg.safe_dropClass (hending : v.Ending) :
    (HeapProg.dropClass h c).Safe heapRules h (fun _ v' => v'.Ending ∧ v.Shrinks v' ∧
      v'.Cleared c) v := by
  refine Prog.Safe.bind (HeapProg.safe_retireSlab hending) ?_
  rintro - v₁ ⟨hending₁, hshrinks₁, hbin₁⟩
  refine Prog.Safe.bind (HeapProg.safe_queueFuel v₁ .full c) ?_
  rintro fuel _ ⟨hfuel, rfl⟩
  refine Prog.Safe.bind (HeapProg.safe_dropQueue hending₁ rfl hfuel) ?_
  rintro - v₂ ⟨hending₂, hshrinks₂, hfull₂⟩
  refine Prog.Safe.bind (HeapProg.safe_queueFuel v₂ .part c) ?_
  rintro fuel _ ⟨hfuel, rfl⟩
  refine (HeapProg.safe_dropQueue hending₂ rfl hfuel).mono ?_
  rintro - v₃ ⟨hending₃, hshrinks₃, hpart₃⟩
  refine ⟨hending₃, (hshrinks₁.trans hshrinks₂).trans hshrinks₃, ?_, fun queue => ?_⟩
  · exact hshrinks₃.bins c (hshrinks₂.bins c hbin₁)
  · cases queue with
    | full => exact hshrinks₃.queues .full c hfull₂
    | part => exact hpart₃

/-- `Drop` is safe and clears every class. -/
theorem HeapProg.safe_dropHeap (hending : v.Ending) :
    (HeapProg.dropHeap h).Safe heapRules h (fun _ v' => v'.Ending ∧
      ∀ c < numClasses, v'.Cleared c) v := by
  have hloop (classes : List ℕ) (v : HeapView) (hending : v.Ending) :
      (classes.forM (HeapProg.dropClass h)).Safe heapRules h
        (fun _ v' => v'.Ending ∧ v.Shrinks v' ∧ ∀ c ∈ classes, v'.Cleared c) v := by
    induction classes generalizing v with
    | nil => exact Prog.Safe.pure ⟨hending, ⟨fun _ hc => hc, fun _ _ hc => hc⟩, by simp⟩
    | cons c classes ih =>
      change (HeapProg.dropClass h c >>= fun _ =>
        classes.forM (HeapProg.dropClass h)).Safe heapRules h _ v
      refine Prog.Safe.bind (HeapProg.safe_dropClass hending) ?_
      rintro - v₁ ⟨hending₁, hshrinks₁, hcleared₁⟩
      refine (ih v₁ hending₁).mono ?_
      rintro - v₂ ⟨hending₂, hshrinks₂, hcleared₂⟩
      refine ⟨hending₂, hshrinks₁.trans hshrinks₂, fun c' hc' => ?_⟩
      rcases List.mem_cons.mp hc' with rfl | hin
      · exact hcleared₁.mono hshrinks₂
      · exact hcleared₂ c' hin
  refine (hloop _ v hending).mono ?_
  rintro - v' ⟨hending', -, hcleared⟩
  exact ⟨hending', fun c hc => hcleared c (List.mem_range.mpr hc)⟩

end ClMalloc
