import ClMalloc.HeapDealloc

/-!
# The end of a heap

A heap that ends gives up its slabs class by class: the active slab, then the full queue,
then the partial one. Each slab is drained; it is returned to the pool if all its slots are
free, and else becomes the head of the abandoned list of its class.
-/

namespace ClMalloc

open Intrusive Placement Transition

/-- `cache_slab` for a slab that is fully free, `abandon_slab` for another; `cls` gives its
class. -/
def PagePool.giveUp (cls : ℕ → ℕ) (pool : PagePool) (slab : ℕ × Bool) : Option PagePool :=
  if slab.2 then pool.cacheSlabToEnd slab.1 else some (pool.abandonSlab 0 (cls slab.1) slab.1)

/-- What giving up the slabs `seen` does: each is drained and leaves its place for the pool. -/
structure DropResult (cls : ℕ → ℕ) (live : List Allocation) (s s' : HeapSys)
    (lists lists' : SlabPlace → List ℕ) (seen : List ℕ) : Prop where
  sweep : Sweep (PagePool.giveUp cls) live s s' seen []
  left : ∀ place, lists' place = (lists place).filter (· ∉ seen)
  listed : ∀ p ∈ seen, ∃ place, p ∈ lists place

variable {s s' s₁ : HeapSys} {live : List Allocation} {lists lists' lists₁ : SlabPlace → List ℕ}
  {roster handles seen seen' : List ℕ} {busy : Option ℕ} {h c slab : ℕ} {cls : ℕ → ℕ}

/-- Without slabs nothing is given up. -/
theorem DropResult.nil : DropResult cls live s s lists lists [] where
  sweep := .nil
  left := by simp
  listed := by simp

/-- Some slabs are given up, then others. -/
theorem DropResult.append (hinv : HeapInv s live lists roster handles busy)
    (hfirst : DropResult cls live s s₁ lists lists₁ seen)
    (hrest : DropResult cls live s₁ s' lists₁ lists' seen') :
    DropResult cls live s s' lists lists' (seen ++ seen') := by
  have hold {p : ℕ} (hp : p ∈ seen') : (∃ place, p ∈ lists place) ∧ p ∉ seen := by
    obtain ⟨place, hplace⟩ := hrest.listed p hp
    rw [hfirst.left, List.mem_filter] at hplace
    exact ⟨⟨place, hplace.1⟩, by simpa using hplace.2⟩
  have hlisted {p : ℕ} (hp : p ∈ seen ++ seen') : ∃ place, p ∈ lists place := by
    rcases List.mem_append.mp hp with hp | hp
    · exact hfirst.listed p hp
    · exact (hold hp).1
  constructor
  case sweep =>
    refine hfirst.sweep.append hinv (fun p hp => ?_) (fun p hp hp' => (hold hp').2 hp) hrest.sweep
    obtain ⟨place, hplace⟩ := hlisted hp
    exact hinv.held hplace
  case left =>
    intro place
    rw [hrest.left, hfirst.left, List.filter_filter]
    refine List.filter_congr fun p _ => ?_
    by_cases hp : p ∈ seen <;> simp [hp]
  case listed => exact fun p hp => hlisted hp

/-- A slab of a heap that ends is cached or abandoned. -/
theorem HeapInv.surrender (hinv : HeapInv s live lists roster handles none)
    (hslab : slab ∈ lists .hand) (hbelongs : s.Belongs roster h c slab) (hgone : h ∉ handles)
    (hcls : (s.headers slab).sizeClassIndex = cls slab) :
    ∃ s', s.surrender slab = .ok s' ∧
      HeapInv s' live (withHand lists ((lists .hand).erase slab)) roster handles none ∧
      Sweep (PagePool.giveUp cls) live s s' [slab] [] := by
  obtain ⟨s₁, hdrain, hdrained, hdrains⟩ := hinv.drains (hinv.held hslab)
  have hinv₁ := hdrained.settle_of_notMem (hinv.notMem_queue hslab)
  have hclass₁ : (s₁.headers slab).sizeClassIndex = (s.headers slab).sizeClassIndex := by
    obtain ⟨id, list, hlist⟩ := hdrains.merged.header
    rw [hlist]
  have hid₁ : (s₁.headers slab).heapId = (s₁.heap h).id := by
    rw [hdrains.id, hdrains.heap, hbelongs.heapId]
  have hok := hinv₁.slabs slab (hinv₁.held hslab)
  have hfree := hdrains.merged.kinds.1
  simp only [HeapSys.surrender, hdrain, bind, Except.bind]
  by_cases hall : s.allFree slab = true
  · rw [hall] at hfree
    obtain ⟨pool, hcache, hinv₂⟩ := hinv₁.cacheSlab hslab hfree
    rw [if_pos hfree, hcache]
    refine ⟨_, rfl, hinv₂, .single hdrains.merged hdrains.others hdrains.heap hok rfl rfl
      ?_ fun _ => ⟨rfl, rfl⟩⟩
    rw [hall, ← hdrains.pool]
    exact HeapSys.cacheSlab_pool hcache
  · rw [Bool.not_eq_true] at hall
    rw [hall] at hfree
    rw [if_neg (by rw [hfree]; simp)]
    have horphan : s₁.Orphan handles (s₁.headers slab).sizeClassIndex slab := by
      refine ⟨by rw [hclass₁, hbelongs.classIdx]; exact hbelongs.range, rfl, ?_,
        fun h' hh' heq => ?_⟩
      · rw [hid₁]
        exact hinv₁.ids h hbelongs.heap
      · rw [hid₁] at heq
        have hsame := hinv₁.idsDiffer h hbelongs.heap h' (hinv₁.alive h' hh') heq
        exact hgone (hsame ▸ hh')
    refine ⟨_, rfl, hinv₁.abandonSlab hslab horphan,
      .single hdrains.merged hdrains.others hdrains.heap hok rfl rfl ?_ fun _ => ⟨rfl, rfl⟩⟩
    rw [hall, ← hdrains.pool, PagePool.giveUp, ← hcls, ← hclass₁]
    rfl

/-- A slab that left its place through the hand is gone from it, and the other places are as
before. -/
theorem passed_eq {src : SlabPlace} (hseparate : Separate lists) (hhand : lists .hand = [])
    (hslab : slab ∈ lists src) (place : SlabPlace) :
    withHand (transfer lists src .hand slab)
      ((transfer lists src .hand slab .hand).erase slab) place =
      (lists place).filter (· ∉ [slab]) := by
  have hsrc : src ≠ .hand := by
    rintro rfl
    simp [hhand] at hslab
  by_cases hplace : place = .hand
  · subst hplace
    rw [withHand_hand, hand_erase_transfer hhand, hhand]
    rfl
  · rw [withHand, Function.update_of_ne hplace]
    by_cases heq : place = src
    · subst heq
      rw [transfer_src (Ne.symm hplace), (hseparate.nodup place).erase_eq_filter]
      refine List.filter_congr fun p _ => ?_
      rw [Bool.eq_iff_iff]
      simp
    · rw [transfer_of_ne heq hplace, List.filter_eq_self.mpr]
      intro p hp
      rw [decide_eq_true_eq, List.mem_singleton]
      rintro rfl
      exact heq (hseparate.unique hp hslab)

/-- A slab that was taken out of its place is given up. -/
theorem Ready.passOut {src : SlabPlace} (hready : Ready s live lists roster handles)
    (hslab : slab ∈ lists src)
    (hinv₁ : HeapInv s₁ live (transfer lists src .hand slab) roster handles none)
    (hstill : Sweep (PagePool.giveUp cls) live s s₁ [] []) (hbelongs : s₁.Belongs roster h c slab)
    (hgone : h ∉ handles) (hcls : (s₁.headers slab).sizeClassIndex = cls slab) :
    ∃ s' lists', s₁.surrender slab = .ok s' ∧ Ready s' live lists' roster handles ∧
      DropResult cls live s s' lists lists' [slab] := by
  have hinv := hready.inv
  have hpassed := passed_eq hinv.separate hready.hand hslab
  obtain ⟨s', hsurrender, hinv', hsweep⟩ := hinv₁.surrender mem_hand_transfer hbelongs hgone hcls
  refine ⟨s', _, hsurrender, ⟨hinv', by rw [hpassed, hready.hand]; rfl⟩, ?_, hpassed,
    fun p hp => ⟨src, ?_⟩⟩
  · refine hstill.append hinv (fun p hp => ?_) (List.disjoint_nil_left _) hsweep
    rw [List.nil_append, List.mem_singleton] at hp
    exact hp ▸ hinv.held hslab
  · rw [List.mem_singleton.mp hp]
    exact hslab

/-- The classes of the listed slabs are those given. -/
def ClassesAre (cls : ℕ → ℕ) (s : HeapSys) (lists : SlabPlace → List ℕ) : Prop :=
  ∀ place, ∀ p ∈ lists place, (s.headers p).sizeClassIndex = cls p

/-- The slabs that are left keep their classes. -/
theorem DropResult.classesAre (hclasses : ClassesAre cls s lists)
    (hdropped : DropResult cls live s s' lists lists' seen) :
    ClassesAre cls s' lists' := by
  intro place p hp
  rw [hdropped.left, List.mem_filter] at hp
  rw [(hdropped.sweep.same p (by simpa using hp.2)).header]
  exact hclasses place p hp.1

/-- `retire_slab` gives up the active slab. -/
theorem Ready.retireSlab (hready : Ready s live lists roster handles) (hgone : h ∉ handles)
    (hclasses : ClassesAre cls s lists) (c : ℕ) :
    ∃ s' lists', s.retireSlab h c = .ok s' ∧ Ready s' live lists' roster handles ∧
      DropResult cls live s s' lists lists' (lists (.bin h c)) := by
  have hinv := hready.inv
  unfold HeapSys.retireSlab
  cases hbin : (s.heap h).bins c with
  | none =>
    have hnil : lists (.bin h c) = [] := by
      rw [hinv.bins, hbin]
      rfl
    rw [hnil]
    exact ⟨s, lists, rfl, hready, .nil⟩
  | some slab =>
    have hone : lists (.bin h c) = [slab] := by
      rw [hinv.bins, hbin]
      rfl
    have hslab : slab ∈ lists (.bin h c) := by simp [hone]
    have hbelongs := hinv.belongs (.bin h c) h c rfl slab hslab
    rw [hone]
    exact hready.passOut hslab (hinv.setBin_none hbin) (.still rfl rfl rfl (s.setBin_same h c none))
      (hbelongs.congr rfl (s.setBin_heap h c none h c).1) hgone (hclasses _ slab hslab)

/-- The loop of `drop` over a queue gives up its slabs in order. -/
theorem Ready.dropQueue {fuel : ℕ} {head : QueueHead} (hready : Ready s live lists roster handles)
    (hgone : head.heap ∉ handles) (hclasses : ClassesAre cls s lists) {queue : List ℕ}
    (hqueue : lists (.queue head) = queue) (hfuel : queue.length ≤ fuel) :
    ∃ s' lists', HeapSys.dropQueue head fuel s = .ok s' ∧ Ready s' live lists' roster handles ∧
      DropResult cls live s s' lists lists' queue := by
  induction queue generalizing s lists fuel with
  | nil =>
    refine ⟨s, lists, ?_, hready, .nil⟩
    unfold HeapSys.dropQueue
    simp only [hready.inv.slabListPop_nil hqueue]
  | cons slab queue ih =>
    have hinv := hready.inv
    have hslab : slab ∈ lists (.queue head) := by simp [hqueue]
    obtain ⟨fuel, rfl⟩ := Nat.exists_eq_add_of_le'
      (Nat.one_le_of_lt (Nat.lt_of_lt_of_le (Nat.succ_pos _) hfuel))
    obtain ⟨links, hpop, hinv₁, -, -⟩ := hinv.slabListPop hqueue
    have hbelongs := hinv.belongs (.queue head) head.heap head.classIdx rfl slab hslab
    obtain ⟨s₂, lists₂, hsurrender, hready₂, hdropped⟩ := hready.passOut hslab hinv₁
      (.still rfl rfl rfl fun _ => ⟨rfl, rfl⟩) (hbelongs.congr rfl rfl) hgone
      (hclasses _ slab hslab)
    have hnodup := hinv.separate.nodup (.queue head)
    rw [hqueue, List.nodup_cons] at hnodup
    have hrest : lists₂ (.queue head) = queue := by
      rw [hdropped.left, hqueue, List.filter_cons_of_neg (by simp), List.filter_eq_self]
      intro p hp
      rw [decide_eq_true_eq, List.mem_singleton]
      rintro rfl
      exact hnodup.1 hp
    obtain ⟨s₃, lists₃, hloop, hready₃, hdropped'⟩ :=
      ih hready₂ (hdropped.classesAre hclasses) hrest (by simpa using hfuel)
    refine ⟨s₃, lists₃, ?_, hready₃, hdropped.append hinv hdropped'⟩
    rw [HeapSys.dropQueue]
    simp only [hpop, hsurrender, bind, Except.bind]
    exact hloop

/-- The slabs a heap holds in a class, in the order in which it gives them up. -/
def heldIn (lists : SlabPlace → List ℕ) (h c : ℕ) : List ℕ :=
  lists (.bin h c) ++ (lists (.queue ⟨h, .full, c⟩) ++ lists (.queue ⟨h, .part, c⟩))

/-- A place that holds none of the slabs seen is as before. -/
theorem DropResult.left_eq (hdropped : DropResult cls live s s' lists lists' seen)
    {place : SlabPlace} (hnone : ∀ p ∈ lists place, p ∉ seen) : lists' place = lists place := by
  rw [hdropped.left, List.filter_eq_self]
  intro p hp
  simpa using hnone p hp

/-- A round of `drop` gives up the slabs of a class. -/
theorem Ready.dropClass (hready : Ready s live lists roster handles) (hgone : h ∉ handles)
    (hclasses : ClassesAre cls s lists) (c : ℕ) :
    ∃ s' lists', s.dropClass h c = .ok s' ∧ Ready s' live lists' roster handles ∧
      DropResult cls live s s' lists lists' (heldIn lists h c) := by
  have hseparate := hready.inv.separate
  obtain ⟨s₁, lists₁, hretire, hready₁, hdropped₁⟩ := hready.retireSlab hgone hclasses c
  have hfull : lists₁ (.queue ⟨h, .full, c⟩) = lists (.queue ⟨h, .full, c⟩) :=
    hdropped₁.left_eq fun p hp hin => absurd (hseparate.unique hp hin) (by simp)
  have hlen := hready₁.inv.queue_length_le ⟨h, .full, c⟩
  rw [hfull] at hlen
  obtain ⟨s₂, lists₂, hqueue, hready₂, hdropped₂⟩ := hready₁.dropQueue
    (show QueueHead.heap ⟨h, .full, c⟩ ∉ handles from hgone)
    (hdropped₁.classesAre hclasses) hfull hlen
  have hdropped := hdropped₁.append hready.inv hdropped₂
  have hpart : lists₂ (.queue ⟨h, .part, c⟩) = lists (.queue ⟨h, .part, c⟩) :=
    hdropped.left_eq fun p hp hin => by
    rcases List.mem_append.mp hin with hin | hin
    · exact absurd (hseparate.unique hp hin) (by simp)
    · exact absurd (hseparate.unique hp hin) (by simp)
  have hlen' := hready₂.inv.queue_length_le ⟨h, .part, c⟩
  rw [hpart] at hlen'
  obtain ⟨s₃, lists₃, hqueue', hready₃, hdropped₃⟩ := hready₂.dropQueue
    (show QueueHead.heap ⟨h, .part, c⟩ ∉ handles from hgone)
    (hdropped.classesAre hclasses) hpart hlen'
  refine ⟨s₃, lists₃, by simp only [HeapSys.dropClass, hretire, hqueue, hqueue', bind, Except.bind],
    hready₃, ?_⟩
  rw [heldIn, ← List.append_assoc]
  exact hdropped.append hready.inv hdropped₃

/-- The places of a heap's class hold what the heap holds in it. -/
theorem mem_heldIn {p : ℕ} :
    p ∈ heldIn lists h c ↔ ∃ place : SlabPlace, place.owner = some (h, c) ∧ p ∈ lists place := by
  unfold heldIn
  simp only [List.mem_append]
  constructor
  · rintro (hp | hp | hp)
    · exact ⟨_, rfl, hp⟩
    · exact ⟨_, rfl, hp⟩
    · exact ⟨_, rfl, hp⟩
  · rintro ⟨place, howner, hp⟩
    cases place with
    | bin h' c' =>
      obtain ⟨rfl, rfl⟩ : h' = h ∧ c' = c := by simpa [SlabPlace.owner] using howner
      exact .inl hp
    | queue head =>
      obtain ⟨h', queue, c'⟩ := head
      obtain ⟨rfl, rfl⟩ : h' = h ∧ c' = c := by simpa [SlabPlace.owner] using howner
      cases queue with
      | full => exact .inr (.inl hp)
      | part => exact .inr (.inr hp)
    | hand => simp [SlabPlace.owner] at howner

/-- A heap holds no slab in two classes. -/
theorem Separate.heldIn_unique (hseparate : Separate lists) {p c' : ℕ} (hp : p ∈ heldIn lists h c)
    (hp' : p ∈ heldIn lists h c') : c = c' := by
  obtain ⟨place, howner, hplace⟩ := mem_heldIn.mp hp
  obtain ⟨place', howner', hplace'⟩ := mem_heldIn.mp hp'
  obtain rfl := hseparate.unique hplace hplace'
  rw [howner] at howner'
  simpa using howner'

/-- What is held in a class that no slab left. -/
theorem DropResult.heldIn_eq (hdropped : DropResult cls live s s' lists lists' seen)
    (hnone : ∀ p ∈ heldIn lists h c, p ∉ seen) : heldIn lists' h c = heldIn lists h c := by
  have hplace (place : SlabPlace) (howner : place.owner = some (h, c)) :
      lists' place = lists place :=
    hdropped.left_eq fun p hp => hnone p (mem_heldIn.mpr ⟨place, howner, hp⟩)
  unfold heldIn
  rw [hplace _ rfl, hplace _ rfl, hplace _ rfl]

/-- The loop of `drop` gives up the slabs of the classes it goes over. -/
theorem Ready.dropClasses (hready : Ready s live lists roster handles) (hgone : h ∉ handles)
    (hclasses : ClassesAre cls s lists) {classes : List ℕ} (hnodup : classes.Nodup) :
    ∃ s' lists', classes.foldlM (HeapSys.dropClass h) s = .ok s' ∧
      Ready s' live lists' roster handles ∧
      DropResult cls live s s' lists lists' (classes.flatMap (heldIn lists h)) := by
  induction classes generalizing s lists with
  | nil => exact ⟨s, lists, rfl, hready, .nil⟩
  | cons c classes ih =>
    rw [List.nodup_cons] at hnodup
    obtain ⟨s₁, lists₁, hround, hready₁, hdropped₁⟩ := hready.dropClass hgone hclasses c
    obtain ⟨s₂, lists₂, hrest, hready₂, hdropped₂⟩ :=
      ih hready₁ (hdropped₁.classesAre hclasses) hnodup.2
    have hothers : classes.flatMap (heldIn lists₁ h) = classes.flatMap (heldIn lists h) := by
      refine List.flatMap_congr fun c' hc' => hdropped₁.heldIn_eq fun p hp hin => ?_
      exact hnodup.1 (Separate.heldIn_unique hready.inv.separate hin hp ▸ hc')
    rw [hothers] at hdropped₂
    refine ⟨s₂, lists₂, by simp only [List.foldlM_cons, hround, bind, Except.bind, hrest], hready₂,
      ?_⟩
    rw [List.flatMap_cons]
    exact hdropped₁.append hready.inv hdropped₂

/-- A heap without slabs may leave the roster. -/
theorem HeapInv.shrink (hinv : HeapInv s live lists roster handles busy) {roster' : List ℕ}
    (hsub : ∀ h ∈ roster', h ∈ roster) (halive : ∀ h ∈ handles, h ∈ roster')
    (hempty : ∀ h ∈ roster, h ∉ roster' → ∀ c < numClasses, heldIn lists h c = []) :
    HeapInv s live lists roster' handles busy :=
  { hinv with
    belongs := fun place h c howner p hp => by
      have hbelongs := hinv.belongs place h c howner p hp
      refine ⟨?_, hbelongs.range, hbelongs.classIdx, hbelongs.heapId⟩
      by_contra hout
      have hheld : p ∈ heldIn lists h c := mem_heldIn.mpr ⟨place, howner, hp⟩
      rw [hempty h hbelongs.heap hout c hbelongs.range] at hheld
      simp at hheld
    ids := fun h hh => hinv.ids h (hsub h hh)
    idsDiffer := fun h hh h' hh' => hinv.idsDiffer h (hsub h hh) h' (hsub h' hh')
    alive := halive }

/-- A heap that ends is no longer live; its slabs are still in its places. -/
theorem HeapInv.retire (hinv : HeapInv s live lists roster handles busy) (h : ℕ) :
    HeapInv s live lists roster (handles.erase h) busy :=
  { hinv with
    orphans := fun c p hp =>
      ⟨(hinv.orphans c p hp).range, (hinv.orphans c p hp).classIdx, (hinv.orphans c p hp).old,
        fun h' hh' => (hinv.orphans c p hp).noHeap h' (List.mem_of_mem_erase hh')⟩
    alive := fun h' hh' => hinv.alive h' (List.mem_of_mem_erase hh')
    aliveOnce := hinv.aliveOnce.erase h }

/-- The slabs a heap holds, in the order in which it gives them up. -/
def heldBy (lists : SlabPlace → List ℕ) (h : ℕ) : List ℕ :=
  (List.range numClasses).flatMap (heldIn lists h)

/-- `drop` ends and has given up every slab the heap held. -/
theorem Ready.dropHeap (hready : Ready s live lists handles handles) (h : ℕ) :
    ∃ s' lists', s.dropHeap h = .ok s' ∧ Ready s' live lists' (handles.erase h) (handles.erase h) ∧
      DropResult (fun p => (s.headers p).sizeClassIndex) live s s' lists lists'
        (heldBy lists h) := by
  have honce := hready.inv.aliveOnce
  have hgone : h ∉ handles.erase h := by
    rw [honce.mem_erase_iff]
    simp
  have hclasses : ClassesAre (fun p => (s.headers p).sizeClassIndex) s lists := fun _ _ _ => rfl
  have hretired : Ready s live lists handles (handles.erase h) := ⟨hready.inv.retire h, hready.hand⟩
  obtain ⟨s', lists', hdrop, hready', hdropped⟩ := hretired.dropClasses hgone hclasses
    (List.nodup_range (n := numClasses))
  refine ⟨s', lists', hdrop, ⟨hready'.inv.shrink (fun _ => List.mem_of_mem_erase) (fun _ hh => hh)
    ?_, hready'.hand⟩, hdropped⟩
  intro h' hh' hout c hc
  have hsame : h' = h := by
    by_contra hne
    exact hout (honce.mem_erase_iff.mpr ⟨hne, hh'⟩)
  subst hsame
  rw [List.eq_nil_iff_forall_not_mem]
  intro p hp
  obtain ⟨place, howner, hplace⟩ := mem_heldIn.mp hp
  rw [hdropped.left, List.mem_filter, decide_eq_true_eq] at hplace
  refine hplace.2 (List.mem_flatMap.mpr ⟨c, List.mem_range.mpr hc, ?_⟩)
  exact mem_heldIn.mpr ⟨place, howner, hplace.1⟩

end ClMalloc
