import ClMalloc.HeapViewMoves

/-!
# Slots pass between a slab and the threads

`alloc` on a slab gives a slot to the thread; the two kinds of free take the slot of the
allocation a thread is freeing; draining moves slots within the slab. Each keeps the balance
of free and served slots and leaves the words of the program's allocations alone.
-/

namespace ClMalloc

open Threads Intrusive Placement

section Slab

variable {base slot : ℕ} {header header' : SlabHeader} {next : ℕ → Option ℕ}
  {live : List Allocation} {a : Allocation}

/-- A local free does not touch the remote stack. -/
theorem SlabOk.remoteSlots_deallocLocal (hok : SlabOk next live base header) (ha : a ∈ live)
    (hserved : a.ServedFrom base) :
    (header.deallocLocal a.ptr).remoteSlots (Function.update next a.ptr header.localList.head) =
      header.remoteSlots next := by
  obtain ⟨lists, place, hinv, -, hlive⟩ := hok
  obtain ⟨hinv', -⟩ := hinv.pushLocal (hlive a ha hserved) ⟨by simp, by simp, by simp⟩
  rw [hinv'.walks.2, hinv.walks.2, transfer_of_ne (by simp) (by simp)]

/-- A remote free puts its slot on top of the remote stack. -/
theorem SlabOk.remoteSlots_deallocRemote (hok : SlabOk next live base header) (ha : a ∈ live)
    (hserved : a.ServedFrom base) :
    (header.deallocRemote a.ptr).remoteSlots (Function.update next a.ptr header.remoteHead) =
      a.ptr :: header.remoteSlots next := by
  obtain ⟨lists, place, hinv, -, hlive⟩ := hok
  have hslot := hlive a ha hserved
  have hwritten := hinv.write hslot (by simp) (by simp) header.remoteHead
  have hinv' := hwritten.pushRemote hslot ⟨by simp, by simp, by simp⟩ (Function.update_self _ _ _)
  rw [hinv'.walks.2, hinv.walks.2, transfer_dst]

/-- A write to an allocation does not touch the remote stack. -/
theorem SlabOk.remoteSlots_write (hok : SlabOk next live base header) (ha : a ∈ live)
    (hserved : a.ServedFrom base) (value : Option ℕ) :
    header.remoteSlots (Function.update next a.ptr value) = header.remoteSlots next := by
  obtain ⟨lists, place, hinv, -, hlive⟩ := hok
  rw [(hinv.write (hlive a ha hserved) (by simp) (by simp) value).walks.2, hinv.walks.2]

end Slab

variable {s s' : HeapSys} {ctx : HeapContext} {views : ℕ → HeapView}
  {lists lists' : SlabPlace → List ℕ} {roster : List ℕ} {allocs allocs' : List Allocation}
  {busy busy' : Option ℕ} {h h' c slab p ptr : ℕ} {v v' : HeapView} {queue : Queue}
  {header : SlabHeader} {next : ℕ → Option ℕ} {a : Allocation} {layout : Layout}

/-- One allocation fewer is served from its page. -/
theorem countP_erase_served (ha : a ∈ allocs) (p : ℕ) :
    (allocs.erase a).countP (fun b => b.ServedFrom p) + (if a.ServedFrom p then 1 else 0) =
      allocs.countP fun b => b.ServedFrom p := by
  have hperm := (List.perm_cons_erase ha).countP_eq fun b => decide (b.ServedFrom p)
  rw [hperm, List.countP_cons]
  by_cases hserved : a.ServedFrom p <;> simp [hserved]

/-- The balance when the contents of one slab change. -/
theorem HeapSys.Balanced.content (hbalanced : s.Balanced allocs)
    (hinv : HeapInv s allocs lists roster ctx.handles busy)
    (hnext : ∀ q, slabMask q ≠ slab → next q = s.next q)
    (hcount : header.slotCount = (s.headers slab).slotCount)
    (hothers : ∀ p, p ≠ slab →
      allocs'.countP (fun a => a.ServedFrom p) = allocs.countP fun a => a.ServedFrom p)
    (hslab : allocs'.countP (fun a => a.ServedFrom slab) +
      (header.freeCount + (header.remoteSlots next).length) =
      allocs.countP (fun a => a.ServedFrom slab) + s.freeTotal slab) :
    HeapSys.Balanced { s with next := next,
                              headers := Function.update s.headers slab header } allocs' := by
  intro p hp
  have hold := hbalanced p hp
  by_cases hps : p = slab
  · subst hps
    simp only [HeapSys.freeTotal, Function.update_self] at hslab ⊢
    rw [hslab, hcount]
    exact hold
  · have hsame : s.SameSlab { s with
        next := next, headers := Function.update s.headers slab header } p :=
      ⟨Function.update_of_ne hps _ _, fun q hq => hnext q (by rwa [hq])⟩
    rw [hothers p hps, hinv.freeTotal_eq hp hsame, hsame.header]
    exact hold

/-- An allocation of the program is one of the allocations. -/
theorem HeapSys.Agrees.mem_allocs (hagrees : s.Agrees ctx views lists roster allocs busy)
    (ha : a ∈ ctx.live) :
    a ∈ allocs :=
  (hagrees.owned.mem_iff a).mpr ⟨none, ha⟩

/-- An allocation a thread is freeing is none of the program's, and at another address. -/
theorem HeapSys.Agrees.pending_apart
    (hagrees : s.Agrees ctx (Function.update views h v) lists roster allocs busy)
    (ha : a ∈ v.pending) {b : Allocation} (hb : b ∈ ctx.live) : b.ptr ≠ a.ptr := by
  intro hptr
  have hsame := List.inj_on_of_nodup_map hagrees.inv.liveOnce (hagrees.mem_allocs hb)
    (hagrees.shared.mem_all ha) hptr
  subst hsame
  exact hagrees.shared.notMem ha (show (none : Option ℕ) ≠ some h by simp) hb

/-- The allocations are listed once. -/
theorem HeapSys.Agrees.allocs_nodup (hagrees : s.Agrees ctx views lists roster allocs busy) :
    allocs.Nodup :=
  hagrees.inv.liveOnce.of_map _

/-- The contents of a slab of the heap change, and with them what the thread has obtained or is
freeing. -/
theorem HeapSys.Agrees.content
    (hagrees : s.Agrees ctx (Function.update views h v) lists roster allocs busy)
    (pending : List Allocation) (hhas : v.Has slab)
    (hinv : HeapInv { s with next := next,
                             headers := Function.update s.headers slab header } allocs' lists roster
      ctx.handles busy')
    (hclass : header.sizeClassIndex = (s.headers slab).sizeClassIndex)
    (hid : header.heapId = (s.headers slab).heapId)
    (howned : Divided allocs' (Function.update (ctx.owned views) (some h) pending))
    (hbalanced : HeapSys.Balanced { s with
      next := next, headers := Function.update s.headers slab header } allocs')
    (hkept : ∀ a ∈ ctx.live, (classIndex a.layout).isSome = true → next a.ptr = s.next a.ptr) :
    HeapSys.Agrees { s with next := next, headers := Function.update s.headers slab header } ctx
      (Function.update views h { v.learn slab header with
        pending := pending }) lists roster allocs' busy' := by
  have hown := hagrees.own
  refine hagrees.act hinv ⟨hown.id, hown.bins, hown.queues, fun p hp => ?_, hown.links⟩ rfl
    ⟨fun _ => rfl, fun _ _ => rfl, fun _ _ => rfl, fun p _ hnot => ?_,
      rfl⟩ hagrees.divided (fun p hp => ?_) howned
    hbalanced hkept
  · by_cases hps : p = slab
    · subst hps
      simp [HeapView.learn]
    · simpa [HeapView.learn, hps] using hown.header p hp
  · have hne : p ≠ slab := by
      rintro rfl
      exact hnot hhas
    simp [hne]
  · have hcarried := hagrees.carries hp
    by_cases hps : p = slab
    · subst hps
      refine ⟨?_, ?_, fun h' hh' hne => ?_⟩
      · simpa [hclass] using hcarried.range
      · simpa [hid] using hcarried.old
      · simpa [hid] using hcarried.others h' hh' hne
    · exact hcarried.congr (by simp [hps]) (fun _ => rfl) rfl

/-- Once the count of the slab being worked on fits its queue again, nothing is off. -/
theorem HeapSys.Agrees.settle
    (hagrees : s.Agrees ctx (Function.update views h v) lists roster allocs (some slab))
    (hhas : v.Has slab)
    (hcount : ∀ queue c, slab ∈ v.queues queue c → queue.CountOk (v.header slab)) :
    s.Agrees ctx (Function.update views h v) lists roster allocs none := by
  have hown := hagrees.own
  refine { hagrees with inv := hagrees.inv.settle fun head hin => ?_ }
  have hheader := hown.header slab hhas
  have hheap : head.heap = h := by
    have hhead := (hagrees.sees head.heap).has hagrees.inv
      (show (SlabPlace.queue head).owner = _ from rfl) hin
    exact hagrees.has_unique hhead (by rwa [Function.update_self])
  subst hheap
  have hqueue := hcount head.queue head.classIdx (by rwa [← hown.queues])
  rw [← hheader] at hqueue
  exact hqueue

/-- A slab that is active or in hand is in no queue. -/
theorem HeapSys.Agrees.notMem_queue
    (hagrees : s.Agrees ctx (Function.update views h v) lists roster allocs busy)
    (hslab : (∃ c, v.bins c = some slab) ∨ slab ∈ v.hand) (queue : Queue) (c : ℕ) :
    slab ∉ v.queues queue c := by
  intro hin
  have hown := hagrees.own
  rw [← hown.queues] at hin
  rcases hslab with ⟨c', hbin⟩ | hhand
  · have hmem := hagrees.inv.mem_bin.mpr
      (show (s.heap h).bins c' = some slab by rw [hown.bins, hbin])
    exact absurd (hagrees.inv.separate.unique hin hmem) (by simp)
  · exact absurd (hagrees.inv.separate.unique hin (hagrees.mem_hand hhand)) (by simp)

/-- A slab that is active or in hand is had. -/
theorem HeapView.has_of_near (hslab : (∃ c, v.bins c = some slab) ∨ slab ∈ v.hand) : v.Has slab :=
  hslab.imp (fun hbin => hbin) .inr

/-- What `Slab::alloc` does when it hands out a slot. -/
theorem HeapSys.slabAlloc_some (halloc : s.slabAlloc slab = (s', some ptr)) :
    ∃ header, (s.headers slab).alloc s.next slab = some (ptr, header) ∧
      s' = s.setHeader slab header := by
  unfold HeapSys.slabAlloc at halloc
  split at halloc <;> cases halloc
  exact ⟨_, ‹_›, rfl⟩

/-- `Slab::alloc` on a slab that is active or in hand gives the thread a slot, or has none
available. -/
theorem HeapSys.Agrees.slabAlloc
    (hagrees : s.Agrees ctx (Function.update views h v) lists roster allocs none)
    (hslab : (∃ c, v.bins c = some slab) ∨ slab ∈ v.hand)
    (hlayout : classIndex layout = some (v.header slab).sizeClassIndex) (hsize : 1 ≤ layout.size) :
    (s.slabAlloc slab = (s, none) ∧ (v.header slab).freeCount = 0) ∨
      ∃ ptr header, s.slabAlloc slab = (s.setHeader slab header, some ptr) ∧
        0 < (v.header slab).freeCount ∧ (s.setHeader slab header).Agrees ctx
          (Function.update views h { v.learn slab header with
            pending := ⟨ptr, layout⟩ :: v.pending }) lists roster
          (⟨ptr, layout⟩ :: allocs) none ∧
        header.sizeClassIndex = (v.header slab).sizeClassIndex ∧
          header.heapId = (v.header slab).heapId := by
  have hhas := HeapView.has_of_near hslab
  have hheld : s.pool.Held slab := .inl (hagrees.has_inUse hhas)
  obtain ⟨hclass, hid, hfree, -⟩ := hagrees.header_eq hhas
  rw [← hclass] at hlayout
  rcases hagrees.inv.slabAlloc (.inl rfl) hheld hlayout hsize with ⟨hnone, hzero⟩ |
    ⟨ptr, list, cursor, remaining, hsome, hinv, hpos⟩
  · exact .inl ⟨hnone, by rw [← hfree, hzero]⟩
  · obtain ⟨header, halloc, hset⟩ := HeapSys.slabAlloc_some hsome
    have hok := hagrees.inv.slabs slab hheld
    obtain ⟨-, hslot, hfresh, hcount⟩ := hok.alloc halloc layout
    obtain ⟨i, -, -, -, -, hmask⟩ := slot_geometry (hagrees.inv.quiet.aligned hheld).1 hslot
    have hserved : (⟨ptr, layout⟩ : Allocation).ServedFrom slab := ⟨by simp [hlayout], hmask⟩
    have hframe := SlabHeader.alloc_frame halloc
    rw [hset] at hsome hinv
    have hnew : (⟨ptr, layout⟩ : Allocation) ∉ allocs := fun hin =>
      hagrees.inv.slot_fresh hheld hslot hfresh (List.mem_map.mpr ⟨_, hin, rfl⟩)
    refine .inr ⟨ptr, header, hsome, by rw [← hfree]; exact hpos, ?_, ?_⟩
    · have hcontent := hagrees.content _ hhas hinv ?_ ?_ (hagrees.shared.cons hnew) ?_ fun _ _ _ =>
        rfl
      · refine hcontent.settle hhas fun queue c hin => ?_
        exact absurd hin (hagrees.notMem_queue hslab queue c)
      · obtain ⟨_, _, _, rfl⟩ := hframe
        rfl
      · obtain ⟨_, _, _, rfl⟩ := hframe
        rfl
      · refine hagrees.balanced.content hagrees.inv (fun _ _ => rfl) ?_ (fun p hp => ?_) ?_
        · obtain ⟨_, _, _, rfl⟩ := hframe
          rfl
        · have hnot : ¬(⟨ptr, layout⟩ : Allocation).ServedFrom p := fun hserved' =>
            hp (hserved'.2.symm.trans hmask)
          simp [hnot]
        · have hremote : header.remoteSlots s.next = (s.headers slab).remoteSlots s.next := by
            obtain ⟨_, _, _, rfl⟩ := hframe
            rfl
          simp only [List.countP_cons, hserved, decide_true, if_true, hremote, HeapSys.freeTotal]
          omega
    · obtain ⟨_, _, _, rfl⟩ := hframe
      exact ⟨hclass, hid⟩

/-- `drain_remote` of a slab of the heap. -/
theorem HeapSys.Agrees.drainRemote
    (hagrees : s.Agrees ctx (Function.update views h v) lists roster allocs none)
    (hhas : v.Has slab) :
    ∃ next header, s.drainRemote slab =
        .ok { s with next := next, headers := Function.update s.headers slab header } ∧
      HeapSys.Agrees { s with next := next, headers := Function.update s.headers slab header } ctx
        (Function.update views h (v.learn slab header)) lists roster allocs (some slab) ∧
      header.sizeClassIndex = (v.header slab).sizeClassIndex ∧
        header.heapId = (v.header slab).heapId ∧
      header.slotCount = (v.header slab).slotCount := by
  have hheld : s.pool.Held slab := .inl (hagrees.has_inUse hhas)
  obtain ⟨hclass, hid, -, hslots⟩ := hagrees.header_eq hhas
  obtain ⟨next, list, heq, hinv, -, -, hframe⟩ := hagrees.inv.drainRemote hheld
  obtain ⟨s', heq', -, hdrains⟩ := hagrees.inv.drains hheld
  rw [heq] at heq'
  cases heq'
  refine ⟨next, _, heq, ?_, hclass, hid, hslots⟩
  have hok := hagrees.inv.slabs slab hheld
  have hpage (q : ℕ) (hq : slabMask q ≠ slab) : next q = s.next q := by
    refine hframe q fun hin => hq ?_
    obtain ⟨i, -, -, -, -, hmask⟩ := slot_geometry (hagrees.inv.quiet.aligned hheld).1
      (hok.mem_remoteSlots hin).1
    exact hmask
  refine hagrees.content v.pending hhas hinv rfl rfl hagrees.shared ?_ fun a ha hsome =>
    hframe _ fun hin => ?_
  · refine hagrees.balanced.content hagrees.inv hpage rfl (fun _ _ => rfl) ?_
    have htotal := hdrains.merged.freeTotal_eq
    simp only [HeapSys.freeTotal, Function.update_self] at htotal ⊢
    rw [htotal]
  · obtain ⟨hslot, hfree⟩ := hok.mem_remoteSlots hin
    obtain ⟨i, -, -, -, -, hmask⟩ := slot_geometry (hagrees.inv.quiet.aligned hheld).1 hslot
    exact hfree a (hagrees.mem_allocs ha) ⟨hsome, hmask⟩ rfl

/-- The slab of an allocation that a thread is freeing. -/
theorem HeapSys.Agrees.slab_of_pending
    (hagrees : s.Agrees ctx (Function.update views h v) lists roster allocs busy)
    (ha : a ∈ v.pending) (hclass : classIndex a.layout = some c) :
    s.pool.Held (slabMask a.ptr) ∧ (s.headers (slabMask a.ptr)).sizeClassIndex = c :=
  hagrees.inv.slab_of_live (hagrees.shared.mem_all ha) hclass

/-- `dealloc_local` of the allocation a thread is freeing, into a slab of its heap. -/
theorem HeapSys.Agrees.deallocLocal
    (hagrees : s.Agrees ctx (Function.update views h v) lists roster allocs none)
    (ha : a ∈ v.pending) (hclass : classIndex a.layout = some c) (hhas : v.Has (slabMask a.ptr)) :
    (s.deallocLocal (slabMask a.ptr) a.ptr).Agrees ctx
        (Function.update views h
          { v.learn (slabMask a.ptr) ((s.headers (slabMask a.ptr)).deallocLocal a.ptr) with
            pending := v.pending.erase a })
        lists roster (allocs.erase a) (some (slabMask a.ptr)) ∧
      ((s.headers (slabMask a.ptr)).deallocLocal a.ptr).freeCount =
        (v.header (slabMask a.ptr)).freeCount + 1 := by
  have hall := hagrees.shared.mem_all ha
  obtain ⟨hheld, -⟩ := hagrees.slab_of_pending ha hclass
  have hserved : a.ServedFrom (slabMask a.ptr) := ⟨by simp [hclass], rfl⟩
  obtain ⟨hinv, hcount⟩ := hagrees.inv.deallocLocal hall hclass
  simp only [HeapSys.deallocLocal, Function.update_self] at hcount
  obtain ⟨-, -, hfree, -⟩ := hagrees.header_eq hhas
  refine ⟨?_, by rw [hcount, hfree]⟩
  refine hagrees.content _ hhas hinv rfl rfl
    (hagrees.shared.erase hagrees.allocs_nodup ha) ?_ fun b hb _ =>
    Function.update_of_ne (hagrees.pending_apart ha hb) _ _
  refine hagrees.balanced.content hagrees.inv (fun q hq => update_outside _ hq) rfl
    (fun p hp => ?_) ?_
  · have herase := countP_erase_served hall p
    rwa [if_neg fun hserved' : a.ServedFrom p => hp hserved'.2.symm, Nat.add_zero] at herase
  · have herase := countP_erase_served hall (slabMask a.ptr)
    rw [if_pos hserved] at herase
    rw [(hagrees.inv.slabs _ hheld).remoteSlots_deallocLocal hall hserved, hcount, ← herase,
      HeapSys.freeTotal]
    omega

/-- `dealloc_remote` of the allocation a thread is freeing. -/
theorem HeapSys.Agrees.deallocRemote
    (hagrees : s.Agrees ctx (Function.update views h v) lists roster allocs none)
    (ha : a ∈ v.pending) (hclass : classIndex a.layout = some c) :
    (s.deallocRemote (slabMask a.ptr) a.ptr).Agrees ctx
      (Function.update views h { v with
        pending := v.pending.erase a }) lists roster (allocs.erase a) none := by
  have hall := hagrees.shared.mem_all ha
  have hown := hagrees.own
  obtain ⟨hheld, -⟩ := hagrees.slab_of_pending ha hclass
  have hserved : a.ServedFrom (slabMask a.ptr) := ⟨by simp [hclass], rfl⟩
  have hpart (p : ℕ) : ((s.deallocRemote (slabMask a.ptr) a.ptr).headers p).ownPart =
      (s.headers p).ownPart := by
    by_cases hp : p = slabMask a.ptr
    · subst hp
      simp [HeapSys.deallocRemote, SlabHeader.deallocRemote, SlabHeader.ownPart]
    · simp [HeapSys.deallocRemote, hp]
  refine hagrees.act (hagrees.inv.deallocRemote hall hclass)
    ⟨hown.id, hown.bins, hown.queues, fun p hp => (hpart p).trans (hown.header p hp),
      hown.links⟩ rfl
    ⟨fun _ => rfl, fun _ _ => rfl, fun _ _ => rfl, fun p _ _ => ⟨hpart p, rfl, rfl⟩,
      rfl⟩ hagrees.divided
    (fun p hp => (hagrees.carries hp).congr (hpart p) (fun _ => rfl) rfl)
    (hagrees.shared.erase hagrees.allocs_nodup ha) ?_ fun b hb _ =>
      Function.update_of_ne (hagrees.pending_apart ha hb) _ _
  refine hagrees.balanced.content hagrees.inv (fun q hq => update_outside _ hq) rfl
    (fun p hp => ?_) ?_
  · have herase := countP_erase_served hall p
    rwa [if_neg fun hserved' : a.ServedFrom p => hp hserved'.2.symm, Nat.add_zero] at herase
  · have herase := countP_erase_served hall (slabMask a.ptr)
    rw [if_pos hserved] at herase
    rw [(hagrees.inv.slabs _ hheld).remoteSlots_deallocRemote hall hserved, ← herase,
      HeapSys.freeTotal, List.length_cons]
    change _ + ((s.headers (slabMask a.ptr)).freeCount + _) = _
    omega

end ClMalloc
