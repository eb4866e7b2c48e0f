import ClMalloc.HeapView

/-!
# Slabs pass between the places and the hands of one heap

`slab_list_remove`, `slab_list_push`, `slab_list_pop` and the bins move a slab between a place
of a heap and its hands. Each is followed by its own change of the heap's view, and no other
view notices.
-/

namespace ClMalloc

open Threads Intrusive Placement

/-- The view with a queue replaced. -/
def HeapView.setQueue (v : HeapView) (queue : Queue) (c : ℕ) (slabs : List ℕ) : HeapView :=
  { v with
    queues := fun queue' c' => if queue' = queue ∧ c' = c then slabs else v.queues queue' c' }

/-- The view with an active slab replaced. -/
def HeapView.setBin (v : HeapView) (c : ℕ) (slab : Option ℕ) : HeapView :=
  { v with bins := Function.update v.bins c slab }

/-- The view with a slab of null links taken in hand. -/
def HeapView.grab (v : HeapView) (slab : ℕ) : HeapView :=
  { v with
    hand := slab :: v.hand
    next := Function.update v.next slab none
    prev := Function.update v.prev slab none }

/-- The view with a slab out of hand. -/
def HeapView.release (v : HeapView) (slab : ℕ) : HeapView := { v with hand := v.hand.erase slab }

/-- The view with the header of a slab read anew. -/
def HeapView.learn (v : HeapView) (slab : ℕ) (header : SlabHeader) : HeapView :=
  { v with header := Function.update v.header slab header.ownPart }

variable {s s' : HeapSys} {ctx : HeapContext} {views : ℕ → HeapView}
  {lists lists' : SlabPlace → List ℕ} {roster : List ℕ} {allocs allocs' : List Allocation}
  {busy busy' : Option ℕ} {h h' c slab p : ℕ} {v v' : HeapView} {queue : Queue}

/-- The view of the thread in focus is right. -/
theorem HeapSys.Agrees.own
    (hagrees : s.Agrees ctx (Function.update views h v) lists roster allocs busy) :
    v.Sees h s lists := by
  have hsees := hagrees.sees h
  rwa [Function.update_self] at hsees

/-- The hands, with those of the thread in focus. -/
theorem HeapSys.Agrees.divided
    (hagrees : s.Agrees ctx (Function.update views h v) lists roster allocs busy) :
    Divided (lists .hand) (Function.update (fun h' => (views h').hand) h v.hand) := by
  rw [← hands_update]
  exact hagrees.hands

/-- The allocations, with those of the thread in focus. -/
theorem HeapSys.Agrees.shared
    (hagrees : s.Agrees ctx (Function.update views h v) lists roster allocs busy) :
    Divided allocs (Function.update (ctx.owned views) (some h) v.pending) := by
  rw [← HeapContext.owned_update]
  exact hagrees.owned

/-- What the thread in focus has in hand is in hand. -/
theorem HeapSys.Agrees.mem_hand
    (hagrees : s.Agrees ctx (Function.update views h v) lists roster allocs busy)
    (hslab : slab ∈ v.hand) : slab ∈ lists .hand :=
  hagrees.divided.mem_all hslab

/-- What the thread in focus carries. -/
theorem HeapSys.Agrees.carries
    (hagrees : s.Agrees ctx (Function.update views h v) lists roster allocs busy)
    (hslab : slab ∈ v.hand) : s.Carried ctx.handles h slab :=
  hagrees.carried h slab (by rwa [Function.update_self])

/-- What the thread in focus has is in use. -/
theorem HeapSys.Agrees.has_inUse
    (hagrees : s.Agrees ctx (Function.update views h v) lists roster allocs busy)
    (hhas : v.Has slab) : slab ∈ s.pool.inUse :=
  hagrees.inUse (show (Function.update views h v h).Has slab by rwa [Function.update_self])

/-- The class, the id and the counts of a slab the thread in focus has are as its view says. -/
theorem HeapSys.Agrees.header_eq
    (hagrees : s.Agrees ctx (Function.update views h v) lists roster allocs busy)
    (hhas : v.Has slab) :
    (s.headers slab).sizeClassIndex = (v.header slab).sizeClassIndex ∧
      (s.headers slab).heapId = (v.header slab).heapId ∧
        (s.headers slab).freeCount = (v.header slab).freeCount ∧
      (s.headers slab).slotCount = (v.header slab).slotCount := by
  apply SlabHeader.ownPart_congr
  rw [← hagrees.own.header slab hhas]
  rfl

/-- A slab that belongs to a heap is carried by it. -/
theorem HeapInv.carried (hinv : HeapInv s allocs lists roster ctx.handles busy)
    (hbelongs : s.Belongs roster h c slab) : s.Carried ctx.handles h slab where
  range := by rw [hbelongs.classIdx]; exact hbelongs.range
  old := by rw [hbelongs.heapId]; exact hinv.ids h hbelongs.heap
  others := fun h' hh' hne heq => by
    rw [hbelongs.heapId] at heq
    exact hne (hinv.idsDiffer h hbelongs.heap h' (hinv.alive h' hh') heq).symm

/-- After a slab moved the view has what it had. -/
theorem HeapView.Sees.has_moved (hsees : v.Sees h s lists)
    (hinv : HeapInv s allocs lists roster ctx.handles busy) {src dst : SlabPlace}
    (hinv' : HeapInv s' allocs (transfer lists src dst slab) roster ctx.handles busy')
    (hbins : (s'.heap h).bins = v'.bins)
    (hqueues : ∀ queue c, transfer lists src dst slab (.queue ⟨h, queue, c⟩) = v'.queues queue c)
    (hhand : ∀ p ∈ v'.hand, p = slab ∨ p ∈ v.hand) (hhad : v.Has slab) (hhas : v'.Has p) :
    v.Has p := by
  have hplace (place : SlabPlace) (c : ℕ) (howner : place.owner = some (h, c))
      (hp : p ∈ transfer lists src dst slab place) : v.Has p := by
    rcases of_mem_transfer hp with ⟨-, rfl⟩ | hin
    · exact hhad
    · exact hsees.has hinv howner hin
  rcases hhas with ⟨c, hbin⟩ | ⟨queue, c, hqueue⟩ | hin
  · exact hplace (.bin h c) c rfl (hinv'.mem_bin.mpr (by rw [hbins, hbin]))
  · exact hplace (.queue ⟨h, queue, c⟩) c rfl (by rwa [hqueues])
  · rcases hhand p hin with rfl | hin
    · exact hhad
    · exact .inr (.inr hin)

/-- A slab passes from a place of the heap to its hands. -/
theorem HeapSys.Agrees.grab
    (hagrees : s.Agrees ctx (Function.update views h v) lists roster allocs busy) {src : SlabPlace}
    (howner : src.owner = some (h, c)) (hslab : slab ∈ lists src) {links : Links ℕ QueueHead}
    {heap : ℕ → Heap} {bins : ℕ → Option ℕ} {queues : Queue → ℕ → List ℕ}
    (hinv : HeapInv { s with links := links, heap := heap } allocs
      (transfer lists src .hand slab) roster ctx.handles busy')
    (hids : ∀ h', (heap h').id = (s.heap h').id)
    (hothers : ∀ h', h' ≠ h → (heap h').bins = (s.heap h').bins)
    (hnull : links.next slab = none ∧ links.prev slab = none)
    (hlinks : ∀ p, p ∉ lists src → links.next p = s.links.next p ∧ links.prev p = s.links.prev p)
    (hbins : (heap h).bins = bins)
    (hqueues : ∀ queue c, transfer lists src .hand slab (.queue ⟨h, queue, c⟩) = queues queue c) :
    HeapSys.Agrees { s with links := links, heap := heap } ctx
      (Function.update views h ({ v with bins := bins, queues := queues }.grab slab))
      (transfer lists src .hand slab) roster allocs busy' := by
  have hown := hagrees.own
  have hhad : v.Has slab := hown.has hagrees.inv howner hslab
  have hnotHand : slab ∉ lists .hand := fun hin => by
    obtain rfl := hagrees.inv.separate.unique hslab hin
    simp [SlabPlace.owner] at howner
  have hhand {p : ℕ} (hp : p ∈ v.hand) : p ∉ lists src := fun hin => by
    obtain rfl := hagrees.inv.separate.unique hin (hagrees.mem_hand hp)
    simp [SlabPlace.owner] at howner
  have hbelongs := hagrees.inv.belongs src h c howner slab hslab
  refine hagrees.act hinv ⟨?_, hbins, hqueues, fun p hp => ?_, fun p hp => ?_⟩ rfl
    ⟨hids, hothers, fun head hhead => ?_, fun p hp hnot => ?_,
      rfl⟩ ?_ (fun p hp => ?_) hagrees.shared hagrees.balanced
    fun _ _ _ => rfl
  · exact (hids h).trans hown.id
  · refine hown.header p (hown.has_moved hagrees.inv hinv hbins hqueues (fun q hq => ?_) hhad hp)
    exact List.mem_cons.mp hq
  · rcases List.mem_cons.mp hp with rfl | hin
    · simpa [HeapView.grab] using hnull
    · have hne : p ≠ slab := by
        rintro rfl
        exact hhand hin hslab
      simpa [HeapView.grab, hne, hown.links p hin] using hlinks p (hhand hin)
  · refine transfer_of_ne ?_ (by simp)
    rintro rfl
    simp only [SlabPlace.owner, Option.some.injEq, Prod.mk.injEq] at howner
    exact hhead howner.1
  · have hframe := hlinks p fun hin => hnot (hown.has hagrees.inv howner hin)
    exact ⟨rfl, hframe.1, hframe.2⟩
  · rw [transfer_dst]
    exact hagrees.divided.cons hnotHand
  · rcases List.mem_cons.mp hp with rfl | hin
    · exact (hagrees.inv.carried hbelongs).congr rfl hids rfl
    · exact (hagrees.carries hin).congr rfl hids rfl

/-- A slab passes from the hands of the heap to a place of its. -/
theorem HeapSys.Agrees.place
    (hagrees : s.Agrees ctx (Function.update views h v) lists roster allocs busy) {dst : SlabPlace}
    (howner : dst.owner = some (h, c)) (hslab : slab ∈ v.hand) {links : Links ℕ QueueHead}
    {heap : ℕ → Heap} {bins : ℕ → Option ℕ} {queues : Queue → ℕ → List ℕ}
    (hinv : HeapInv { s with links := links, heap := heap } allocs
      (transfer lists .hand dst slab) roster ctx.handles busy')
    (hids : ∀ h', (heap h').id = (s.heap h').id)
    (hothers : ∀ h', h' ≠ h → (heap h').bins = (s.heap h').bins)
    (hlinks : ∀ p, p ∉ lists dst → p ≠ slab → links.next p = s.links.next p ∧
      links.prev p = s.links.prev p)
    (hbins : (heap h).bins = bins)
    (hqueues : ∀ queue c, transfer lists .hand dst slab (.queue ⟨h, queue, c⟩) = queues queue c) :
    HeapSys.Agrees { s with links := links, heap := heap } ctx
      (Function.update views h ({ v with bins := bins, queues := queues }.release slab))
      (transfer lists .hand dst slab) roster allocs busy' := by
  have hown := hagrees.own
  have hdst : dst ≠ .hand := by
    rintro rfl
    simp [SlabPlace.owner] at howner
  have hhand {p : ℕ} (hp : p ∈ v.hand) : p ∉ lists dst := fun hin =>
    hdst (hagrees.inv.separate.unique hin (hagrees.mem_hand hp))
  refine hagrees.act hinv ⟨?_, hbins, hqueues, fun p hp => ?_, fun p hp => ?_⟩ rfl
    ⟨hids, hothers, fun head hhead => ?_, fun p hp hnot => ?_,
      rfl⟩ ?_ (fun p hp => ?_) hagrees.shared hagrees.balanced
    fun _ _ _ => rfl
  · exact (hids h).trans hown.id
  · refine hown.header p (hown.has_moved hagrees.inv hinv hbins hqueues (fun q hq => ?_)
      (.inr (.inr hslab)) hp)
    exact .inr (List.mem_of_mem_erase hq)
  · obtain ⟨hne, hp⟩ := hagrees.divided.nodup.mem_erase_iff.mp hp
    have hframe := hlinks p (hhand hp) hne
    exact ⟨hframe.1.trans (hown.links p hp).1, hframe.2.trans (hown.links p hp).2⟩
  · refine transfer_of_ne (by simp) ?_
    rintro rfl
    simp only [SlabPlace.owner, Option.some.injEq, Prod.mk.injEq] at howner
    exact hhead howner.1
  · have hframe := hlinks p (fun hin => hnot (hown.has hagrees.inv howner hin)) fun heq =>
      hnot (heq ▸ .inr (.inr hslab))
    exact ⟨rfl, hframe.1, hframe.2⟩
  · rw [transfer_src hdst]
    exact hagrees.divided.erase (hagrees.inv.separate.nodup .hand) hslab
  · exact (hagrees.carries (List.mem_of_mem_erase hp)).congr rfl hids rfl

/-- `slab_list_remove` changes the links of the slab's queue only. -/
theorem HeapInv.slabListRemove_frame (hinv : HeapInv s allocs lists roster ctx.handles busy)
    {head : QueueHead} (hslab : slab ∈ lists (.queue head))
    (hbusy : busy = none ∨ busy = some slab) :
    ∃ links, s.links.remove slab = some links ∧
      HeapInv { s with links := links } allocs
        (transfer lists (.queue head) .hand slab) roster ctx.handles none ∧
      (links.next slab = none ∧ links.prev slab = none) ∧
      ∀ p, p ∉ lists (.queue head) → links.next p = s.links.next p ∧
        links.prev p = s.links.prev p := by
  obtain ⟨links, heq, -, -, -, hframe⟩ := hinv.linked.remove hinv.queues_separate hslab
  obtain ⟨links', hremove, hinv', hnull⟩ := hinv.slabListRemove hslab hbusy
  have hsame : links' = links := by
    simp only [HeapSys.slabListRemove, heq, Except.ok.injEq] at hremove
    exact congrArg HeapSys.links hremove.symm
  subst hsame
  exact ⟨links', heq, hinv', hnull, hframe⟩

/-- The places of another queue, and of the bins, when a slab leaves a queue for the hand. -/
theorem transfer_queue_hand (queue : Queue) (h c slab : ℕ) (lists : SlabPlace → List ℕ)
    (queue' : Queue) (c' : ℕ) :
    transfer lists (.queue ⟨h, queue, c⟩) .hand slab (.queue ⟨h, queue', c'⟩) =
      if queue' = queue ∧ c' = c then (lists (.queue ⟨h, queue, c⟩)).erase slab
      else lists (.queue ⟨h, queue', c'⟩) := by
  by_cases hsame : queue' = queue ∧ c' = c
  · obtain ⟨rfl, rfl⟩ := hsame
    rw [if_pos ⟨rfl, rfl⟩, transfer_src (by simp)]
  · rw [if_neg hsame, transfer_of_ne (by simpa using hsame) (by simp)]

/-- The places of another queue, and of the bins, when a slab leaves the hand for a queue. -/
theorem transfer_hand_queue (queue : Queue) (h c slab : ℕ) (lists : SlabPlace → List ℕ)
    (queue' : Queue) (c' : ℕ) :
    transfer lists .hand (.queue ⟨h, queue, c⟩) slab (.queue ⟨h, queue', c'⟩) =
      if queue' = queue ∧ c' = c then slab :: lists (.queue ⟨h, queue, c⟩)
        else lists (.queue ⟨h, queue', c'⟩) := by
  by_cases hsame : queue' = queue ∧ c' = c
  · obtain ⟨rfl, rfl⟩ := hsame
    rw [if_pos ⟨rfl, rfl⟩, transfer_dst]
  · rw [if_neg hsame, transfer_of_ne (by simp) (by simpa using hsame)]

/-- `slab_list_remove` of a queued slab takes it in hand. -/
theorem HeapSys.Agrees.slabListRemove
    (hagrees : s.Agrees ctx (Function.update views h v) lists roster allocs busy)
    (hslab : slab ∈ v.queues queue c) (hbusy : busy = none ∨ busy = some slab) :
    ∃ links, s.links.remove slab = some links ∧ s.slabListRemove slab = .ok { s with
      links := links } ∧ HeapSys.Agrees { s with links := links } ctx
        (Function.update views h ((v.setQueue queue c ((v.queues queue c).erase slab)).grab slab))
        (transfer lists (.queue ⟨h, queue, c⟩) .hand slab) roster allocs none := by
  have hown := hagrees.own
  have hmem : slab ∈ lists (.queue ⟨h, queue, c⟩) := by rwa [hown.queues]
  obtain ⟨links, heq, hinv, hnull, hframe⟩ := hagrees.inv.slabListRemove_frame hmem hbusy
  refine ⟨links, heq, by simp only [HeapSys.slabListRemove, heq], ?_⟩
  refine hagrees.grab (c := c) rfl hmem hinv (fun _ => rfl)
    (fun _ _ => rfl) hnull hframe hown.bins fun queue' c' => ?_
  rw [transfer_queue_hand, hown.queues, hown.queues]

/-- `slab_list_pop` takes the first slab of a queue in hand. -/
theorem HeapSys.Agrees.slabListPop
    (hagrees : s.Agrees ctx (Function.update views h v) lists roster allocs none) {rest : List ℕ}
    (hlist : v.queues queue c = slab :: rest) :
    ∃ links, s.slabListPop ⟨h, queue, c⟩ = some (slab, { s with links := links }) ∧
      HeapSys.Agrees { s with links := links } ctx
        (Function.update views h ((v.setQueue queue c rest).grab slab))
        (transfer lists (.queue ⟨h, queue, c⟩) .hand slab) roster allocs none := by
  obtain ⟨links, hremove, -, hagrees'⟩ :=
    hagrees.slabListRemove (show slab ∈ v.queues queue c by simp [hlist]) (.inl rfl)
  rw [hlist, List.erase_cons_head] at hagrees'
  have hdlist : DList s.links _ (lists (.queue ⟨h, queue, c⟩)) := hagrees.inv.linked ⟨h, queue, c⟩
  rw [hagrees.own.queues, hlist] at hdlist
  rw [Links.remove_eq hdlist.2.1, Option.some.injEq] at hremove
  refine ⟨links, ?_, hagrees'⟩
  rw [HeapSys.slabListPop, Links.pop_eq hdlist.1, hremove]

/-- `slab_list_pop` finds nothing in an empty queue. -/
theorem HeapSys.Agrees.slabListPop_nil
    (hagrees : s.Agrees ctx (Function.update views h v) lists roster allocs busy)
    (hlist : v.queues queue c = []) : s.slabListPop ⟨h, queue, c⟩ = none :=
  hagrees.inv.slabListPop_nil (by rw [hagrees.own.queues, hlist])

/-- A slab in hand with the id and the class belongs to the heap. -/
theorem HeapSys.Agrees.belongs
    (hagrees : s.Agrees ctx (Function.update views h v) lists roster allocs busy)
    (hslab : slab ∈ v.hand) (hphase : v.phase ≠ .gone) (hclass : (v.header slab).sizeClassIndex = c)
    (hid : (v.header slab).heapId = v.id) : s.Belongs roster h c slab := by
  have hheader := hagrees.own.header slab (.inr (.inr hslab))
  rw [← hheader] at hclass hid
  have hrange := (hagrees.carries hslab).range
  refine ⟨(hagrees.roster h).mpr (by rwa [Function.update_self]), hclass ▸ hrange, hclass, ?_⟩
  exact hid.trans hagrees.own.id.symm

/-- `slab_list_push` of a slab in hand whose count fits the queue. -/
theorem HeapSys.Agrees.slabListPush
    (hagrees : s.Agrees ctx (Function.update views h v) lists roster allocs none) (queue : Queue)
    (hslab : slab ∈ v.hand) (hphase : v.phase ≠ .gone) (hclass : (v.header slab).sizeClassIndex = c)
    (hid : (v.header slab).heapId = v.id) (hcount : queue.CountOk (v.header slab)) :
    (s.slabListPush ⟨h, queue, c⟩ slab).Agrees ctx
      (Function.update views h ((v.release slab).setQueue queue c (slab :: v.queues queue c)))
      (transfer lists .hand (.queue ⟨h, queue, c⟩) slab) roster allocs none := by
  have hown := hagrees.own
  have hmem := hagrees.mem_hand hslab
  have hcount' : queue.CountOk (s.headers slab) := by
    rw [← hown.header slab (.inr (.inr hslab))] at hcount
    exact hcount
  have hinv := hagrees.inv.slabListPush ⟨h, queue, c⟩ hmem
    (hagrees.belongs hslab hphase hclass hid) hcount'
  refine hagrees.place (c := c) rfl hslab hinv (fun _ => rfl) (fun _ _ => rfl)
    (fun p hp hne => hagrees.inv.linked.push_frame hp hne) hown.bins fun queue' c' => ?_
  rw [transfer_hand_queue, hown.queues, hown.queues]
  rfl

/-- The bins of a heap after one was set. -/
theorem HeapSys.setBin_bins (s : HeapSys) (h c : ℕ) (slab : Option ℕ) :
    ((s.setBin h c slab).heap h).bins = Function.update (s.heap h).bins c slab := by
  simp [HeapSys.setBin, HeapSys.setHeap]

/-- Setting a bin of one heap sets none of another. -/
theorem HeapSys.setBin_others (s : HeapSys) (c : ℕ) (slab : Option ℕ) (hne : h' ≠ h) :
    ((s.setBin h c slab).heap h').bins = (s.heap h').bins := by
  simp [HeapSys.setBin, HeapSys.setHeap, hne]

/-- A slab in hand with null links becomes the active slab behind an empty bin. -/
theorem HeapSys.Agrees.setBin_some
    (hagrees : s.Agrees ctx (Function.update views h v) lists roster allocs none)
    (hslab : slab ∈ v.hand) (hempty : v.bins c = none) (hphase : v.phase ≠ .gone)
    (hclass : (v.header slab).sizeClassIndex = c) (hid : (v.header slab).heapId = v.id)
    (hnext : v.next slab = none) (hprev : v.prev slab = none) :
    (s.setBin h c (some slab)).Agrees ctx
      (Function.update views h ((v.release slab).setBin c (some slab)))
      (transfer lists .hand (.bin h c) slab) roster allocs none := by
  have hown := hagrees.own
  have hlinks := hown.links slab hslab
  rw [hnext, hprev] at hlinks
  have hinv := hagrees.inv.setBin_some (hagrees.mem_hand hslab) (by rw [hown.bins, hempty])
    (hagrees.belongs hslab hphase hclass hid) hlinks
  refine hagrees.place (c := c) rfl hslab hinv (fun h' => (s.setBin_heap h c _ h' c).1)
    (fun h' hne => s.setBin_others c _ hne) (fun _ _ _ => ⟨rfl, rfl⟩)
    ((s.setBin_bins h c _).trans (by rw [hown.bins]; rfl)) fun queue c' => ?_
  rw [transfer_of_ne (by simp) (by simp), hown.queues]
  rfl

/-- The active slab of a class is taken in hand. -/
theorem HeapSys.Agrees.setBin_none
    (hagrees : s.Agrees ctx (Function.update views h v) lists roster allocs none)
    (hbin : v.bins c = some slab) :
    (s.setBin h c none).Agrees ctx (Function.update views h ((v.setBin c none).grab slab))
      (transfer lists (.bin h c) .hand slab) roster allocs none := by
  have hown := hagrees.own
  have hsome : (s.heap h).bins c = some slab := by rw [hown.bins, hbin]
  have hmem := hagrees.inv.mem_bin.mpr hsome
  refine hagrees.grab (c := c) rfl hmem (hagrees.inv.setBin_none hsome)
    (fun h' => (s.setBin_heap h c _ h' c).1)
    (fun h' hne => s.setBin_others c _ hne) (hagrees.inv.binLinks h c slab hmem)
    (fun _ _ => ⟨rfl, rfl⟩) ((s.setBin_bins h c _).trans (by rw [hown.bins])) fun queue c' => ?_
  rw [transfer_of_ne (by simp) (by simp), hown.queues]

end ClMalloc
