import ClMalloc.HeapInvariant

/-!
# Slabs pass between the heaps and the pool

A slab in hand can be cached or returned when it is fully free, or abandoned; abandoned
slabs and fresh pages come back in hand. The slabs in the queues and bins are not touched.
-/

namespace ClMalloc

open Intrusive Placement

variable {s s' : HeapSys} {live live' : List Allocation} {lists : SlabPlace → List ℕ}
  {roster handles : List ℕ} {busy : Option ℕ} {h c slab page : ℕ} {head : QueueHead}
  {place : SlabPlace} {pool : PagePool}

/-- The lists with another content of the hand. -/
def withHand (lists : SlabPlace → List ℕ) (hand : List ℕ) : SlabPlace → List ℕ :=
  Function.update lists .hand hand

/-- The hand holds what it was given. -/
@[simp] theorem withHand_hand (hand : List ℕ) : withHand lists hand .hand = hand :=
  by simp [withHand]

/-- The bins are not in hand. -/
@[simp] theorem withHand_bin (hand : List ℕ) (h c : ℕ) :
    withHand lists hand (.bin h c) = lists (.bin h c) := by
  simp [withHand]

/-- The queues are not in hand. -/
@[simp] theorem withHand_queue (hand : List ℕ) (head : QueueHead) :
    withHand lists hand (.queue head) = lists (.queue head) := by
  simp [withHand]

/-- A place with an owner is not the hand. -/
theorem withHand_of_owner (hand : List ℕ) {x : ℕ × ℕ} (howner : place.owner = some x) :
    withHand lists hand place = lists place := by
  cases place with
  | bin h c => simp
  | queue head => simp
  | hand => simp [SlabPlace.owner] at howner

/-- What is somewhere is in hand or in a place with an owner. -/
theorem exists_mem_withHand {hand : List ℕ} {p : ℕ} :
    (∃ place, p ∈ withHand lists hand place) ↔ p ∈ hand ∨
      ∃ place, place ≠ .hand ∧ p ∈ lists place := by
  constructor
  · rintro ⟨place, hp⟩
    by_cases hplace : place = .hand
    · subst hplace
      exact .inl (by simpa using hp)
    · exact .inr ⟨place, hplace, by simpa [withHand, hplace] using hp⟩
  · rintro (hp | ⟨place, hplace, hp⟩)
    · exact ⟨.hand, by simpa using hp⟩
    · exact ⟨place, by simpa [withHand, hplace] using hp⟩

/-- New slabs in hand keep the places separate. -/
theorem withHand_separate (hsep : Separate lists) {hand : List ℕ} (hnodup : hand.Nodup)
    (hnew : ∀ place, place ≠ .hand → ∀ p ∈ hand, p ∉ lists place) :
    Separate (withHand lists hand) where
  nodup := fun place => by
    by_cases hplace : place = .hand
    · subst hplace
      simpa using hnodup
    · simpa [withHand, hplace] using hsep.nodup place
  disjoint := fun place place' hne p hp hp' => by
    by_cases hplace : place = .hand
    · subst hplace
      have hother : p ∈ lists place' := by simpa [withHand, hne.symm] using hp'
      exact hnew place' hne.symm p (by simpa using hp) hother
    · have hother : p ∈ lists place := by simpa [withHand, hplace] using hp
      by_cases hplace' : place' = .hand
      · subst hplace'
        exact hnew place hplace p (by simpa using hp') hother
      · exact hsep.disjoint place place' hne hother (by simpa [withHand, hplace'] using hp')

/-- The pool changes beneath the heaps: the hand changes with the pages in use. -/
theorem HeapInv.repool (hinv : HeapInv s live lists roster handles none) (hand : List ℕ)
    (hquiet : Quiet pool) (hseparate : Separate (withHand lists hand))
    (hinUse : ∀ p, p ∈ pool.inUse ↔ p ∈ hand ∨ ∃ place, place ≠ .hand ∧ p ∈ lists place)
    (habandoned : ∀ c, pool.abandoned c = s.pool.abandoned c ∨ pool.abandoned c = [])
    (hheld : ∀ p, pool.Held p → s.pool.Held p)
    (hlive : ∀ a ∈ live', (classIndex a.layout).isSome = true → a ∈ live)
    (hserves : ∀ a ∈ live', HeapSys.Serves { s with pool := pool } a)
    (honce : (live'.map Allocation.ptr).Nodup) :
    HeapInv { s with pool := pool } live' (withHand lists hand) roster handles none :=
  { hinv with
    quiet := hquiet
    separate := hseparate
    inUse := fun p => by rw [hinUse, exists_mem_withHand]
    bins := fun h c => by rw [withHand_bin, hinv.bins]
    linked := by simpa using hinv.linked
    binLinks := fun h c p hp => hinv.binLinks h c p (by simpa using hp)
    abandoned := fun c => by
      rcases habandoned c with heq | heq
      · rw [show pool.abandoned c = _ from heq]
        exact hinv.abandoned c
      · rw [show pool.abandoned c = _ from heq]
        rfl
    belongs := fun place h c howner p hp => by
      rw [withHand_of_owner hand howner] at hp
      exact (hinv.belongs place h c howner p hp).congr rfl rfl
    counts := fun head p hp hbusy => hinv.counts head p (by simpa using hp) hbusy
    orphans := fun c p hp => by
      rcases habandoned c with heq | heq
      · rw [show pool.abandoned c = _ from heq] at hp
        exact (hinv.orphans c p hp).congr rfl le_rfl (hinv.orphans c p hp).noHeap
      · rw [show pool.abandoned c = _ from heq] at hp
        simp at hp
    slabs := fun p hp => (hinv.slabs p (hheld p hp)).congr_live fun a ha hserved =>
      hlive a ha hserved.1
    serves := hserves
    liveOnce := honce }

/-- Every page in use is in hand or in a place with an owner. -/
theorem HeapInv.mem_inUse (hinv : HeapInv s live lists roster handles busy) (p : ℕ) :
    p ∈ s.pool.inUse ↔ p ∈ lists .hand ∨ ∃ place, place ≠ .hand ∧ p ∈ lists place := by
  rw [hinv.inUse]
  constructor
  · rintro ⟨place, hp⟩
    by_cases hplace : place = .hand
    · exact .inl (hplace ▸ hp)
    · exact .inr ⟨place, hplace, hp⟩
  · rintro (hp | ⟨place, -, hp⟩)
    · exact ⟨_, hp⟩
    · exact ⟨place, hp⟩

/-- A slab leaves the hand. -/
theorem HeapInv.hand_erase (hinv : HeapInv s live lists roster handles busy)
    (hslab : slab ∈ lists .hand) :
    Separate (withHand lists ((lists .hand).erase slab)) ∧
      ∀ p, p ∈ s.pool.inUse.erase slab ↔
        p ∈ (lists .hand).erase slab ∨ ∃ place, place ≠ .hand ∧ p ∈ lists place := by
  refine ⟨hinv.separate.erase hslab, fun p => ?_⟩
  rw [hinv.quiet.lists_apart.1.mem_erase_iff,
    (hinv.separate.nodup .hand).mem_erase_iff, hinv.mem_inUse]
  constructor
  · rintro ⟨hne, hp | hp⟩
    · exact .inl ⟨hne, hp⟩
    · exact .inr hp
  · rintro (⟨hne, hp⟩ | ⟨place, hplace, hp⟩)
    · exact ⟨hne, .inl hp⟩
    · refine ⟨?_, .inr ⟨place, hplace, hp⟩⟩
      rintro rfl
      exact hplace (hinv.separate.unique hp hslab)

/-- `cache_slab` takes a fully free slab from the hand. -/
theorem HeapInv.cacheSlab (hinv : HeapInv s live lists roster handles none)
    (hslab : slab ∈ lists .hand) (hfree : (s.headers slab).isFullyFree = true) :
    ∃ pool, s.cacheSlab slab = .ok { s with pool := pool } ∧
      HeapInv { s with pool := pool } live
        (withHand lists ((lists .hand).erase slab)) roster handles none := by
  obtain ⟨pool, heq, hquiet, hinUse, habandoned, hlarge⟩ :=
    hinv.quiet.cacheSlab ((hinv.inUse slab).mpr ⟨_, hslab⟩)
  obtain ⟨hseparate, hmem⟩ := hinv.hand_erase hslab
  refine ⟨pool, by simp [HeapSys.cacheSlab, heq], ?_⟩
  refine hinv.repool _ hquiet hseparate (fun p => by rw [hinUse]; exact hmem p)
    (fun c => .inl (congrFun habandoned c)) (fun p hp => ?_) (fun a ha _ => ha)
    (fun a ha => ?_) hinv.liveOnce
  · rw [PagePool.Held, hinUse, habandoned] at hp
    exact hp.imp List.mem_of_mem_erase id
  · refine (hinv.serves a ha).congr (fun p hp hserved => ⟨?_, rfl⟩) fun hin => by rwa [hlarge]
    have hne : p ≠ slab := by
      rintro rfl
      exact (hinv.slabs p (hinv.held hslab)).not_served hfree ha hserved
    change pool.Held p
    rw [PagePool.Held, hinUse, habandoned]
    exact hp.imp (fun hin => (List.mem_erase_of_ne hne).mpr hin) id

/-- `inc_adopt_count` only counts. -/
theorem HeapInv.incAdoptCount (hinv : HeapInv s live lists roster handles none) (c : ℕ) :
    HeapInv { s with pool := s.pool.incAdoptCount c } live lists roster handles none :=
  { hinv with
    quiet := hinv.quiet.incAdoptCount c
    inUse := hinv.inUse
    abandoned := hinv.abandoned
    belongs := fun place h c howner p hp => (hinv.belongs place h c howner p hp).congr rfl rfl
    orphans := fun c p hp => (hinv.orphans c p hp).congr rfl le_rfl (hinv.orphans c p hp).noHeap
    slabs := hinv.slabs
    serves := fun a ha => (hinv.serves a ha).congr (fun _ hp _ => ⟨hp, rfl⟩) fun hlarge => hlarge }

/-- `adopt_all` takes the abandoned slabs of a class in hand. -/
theorem HeapInv.adoptAllOnto (hinv : HeapInv s live lists roster handles none)
    (hclass : c < numClasses) :
    HeapInv { s with pool := s.pool.adoptAll 0 c } live
      (withHand lists (s.pool.abandoned c ++ lists .hand)) roster
      handles none := by
  obtain ⟨hquiet, hinUse⟩ := hinv.quiet.adoptAll hclass
  obtain ⟨-, hnodup, happart, -⟩ := hinv.quiet.lists_apart
  have hnew (place : SlabPlace) (p : ℕ) (hp : p ∈ s.pool.abandoned c) :
      p ∉ lists place := fun hin =>
    happart c ((hinv.inUse p).mpr ⟨place, hin⟩) hp
  have habandoned (c' : ℕ) : (s.pool.adoptAll 0 c).abandoned c' = if c' = c then []
      else s.pool.abandoned c' := by
    by_cases hc : c' = c
    · subst hc
      simp [PagePool.adoptAll]
    · simp [PagePool.adoptAll, hc]
  have hheld (p : ℕ) : (s.pool.adoptAll 0 c).Held p ↔ s.pool.Held p := by
    rw [PagePool.Held, PagePool.Held, hinUse, List.mem_append]
    constructor
    · rintro ((hp | hp) | ⟨c', hp⟩)
      · exact .inr ⟨c, hp⟩
      · exact .inl hp
      · rw [habandoned] at hp
        split at hp
        · simp at hp
        · exact .inr ⟨c', hp⟩
    · rintro (hp | ⟨c', hp⟩)
      · exact .inl (.inr hp)
      · by_cases hc : c' = c
        · subst hc
          exact .inl (.inl hp)
        · exact .inr ⟨c', by rw [habandoned, if_neg hc]; exact hp⟩
  have hhand : (s.pool.abandoned c ++ lists .hand).Nodup :=
    List.nodup_append.mpr ⟨hnodup c, hinv.separate.nodup .hand,
      fun p hp q hq heq => hnew .hand p hp (heq ▸ hq)⟩
  refine hinv.repool _ hquiet (withHand_separate hinv.separate hhand fun place hplace p hp hin =>
    ?_) (fun p => ?_)
    (fun c' => ?_) (fun p hp => (hheld p).mp hp) (fun a ha _ => ha) (fun a ha => ?_) hinv.liveOnce
  · rcases List.mem_append.mp hp with hp | hp
    · exact hnew place p hp hin
    · exact hplace (hinv.separate.unique hin hp)
  · rw [hinUse, List.mem_append, hinv.mem_inUse, List.mem_append, or_assoc]
  · rw [habandoned]
    by_cases hc : c' = c <;> simp [hc]
  · exact (hinv.serves a ha).congr (fun p hp _ => ⟨(hheld p).mpr hp, rfl⟩) fun hlarge => hlarge

/-- `adopt_all` with nothing in hand before. -/
theorem HeapInv.adoptAll (hinv : HeapInv s live lists roster handles none)
    (hhand : lists .hand = []) (hclass : c < numClasses) :
    HeapInv { s with pool := s.pool.adoptAll 0 c } live
      (withHand lists (s.pool.abandoned c)) roster handles none := by
  have hadopted := hinv.adoptAllOnto hclass
  rwa [hhand, List.append_nil] at hadopted

/-- The links of a slab in hand may be written. -/
theorem HeapInv.linksInHand (hinv : HeapInv s live lists roster handles none)
    (hslab : slab ∈ lists .hand) {links : Links ℕ QueueHead} (hhead : links.head = s.links.head)
    (hother : ∀ p, p ≠ slab → links.next p = s.links.next p ∧ links.prev p = s.links.prev p) :
    HeapInv { s with links := links } live lists roster handles none := by
  have hne {place : SlabPlace} {p : ℕ} (hplace : place ≠ .hand) (hp : p ∈ lists place) :
      p ≠ slab := by
    rintro rfl
    exact hplace (hinv.separate.unique hp hslab)
  refine hinv.relink none hinv.separate (fun _ => Iff.rfl) hinv.bins
    (hinv.linked.congr hhead fun head p hp => hother p (hne (by simp) hp)) (fun h c p hp => ?_)
    (fun c p hp => ?_)
    hinv.belongs hinv.counts (fun _ => rfl)
  · have hframe := hother p (hne (by simp) hp)
    rw [hframe.1, hframe.2]
    exact hinv.binLinks h c p hp
  · refine (hother p ?_).1
    rintro rfl
    exact hinv.notMem_abandoned hslab c hp

/-- `abandon_slab` puts a slab in hand on the list of its class. -/
theorem HeapInv.abandonSlab (hinv : HeapInv s live lists roster handles none)
    (hslab : slab ∈ lists .hand) (horphan : s.Orphan handles (s.headers slab).sizeClassIndex slab) :
    HeapInv (s.abandonSlab slab) live (withHand lists ((lists .hand).erase slab)) roster
      handles none := by
  have hinUse := (hinv.inUse slab).mpr ⟨_, hslab⟩
  obtain ⟨hquiet, hinUse'⟩ := hinv.quiet.abandonSlab hinUse horphan.range
  obtain ⟨hseparate, hmem⟩ := hinv.hand_erase hslab
  have hlinks : HeapInv
      { s with
        links := s.links.setNext slab (s.pool.abandoned (s.headers slab).sizeClassIndex).head? }
      live lists roster handles none :=
    hinv.linksInHand hslab rfl fun p hp => by simp [Links.setNext, Links.write, hp]
  have hheld (p : ℕ) : (s.pool.abandonSlab 0 (s.headers slab).sizeClassIndex slab).Held p ↔
      s.pool.Held p :=
    hinv.quiet.held_abandonSlab hinUse horphan.range
  exact
    { hlinks with
      quiet := hquiet
      separate := hseparate
      inUse := fun p => by
        rw [show (s.abandonSlab slab).pool.inUse = _ from hinUse', hmem, exists_mem_withHand]
      bins := fun h c => by
        rw [withHand_bin]
        exact hinv.bins h c
      linked := by
        simp only [withHand_queue]
        exact hlinks.linked
      binLinks := fun h c p hp => hlinks.binLinks h c p (by simpa using hp)
      abandoned := fun c => by
        have hchain := hlinks.abandoned c
        change Chain _ (Function.update s.pool.abandoned _ _ c).head?
          (Function.update s.pool.abandoned _ _ c)
        by_cases hc : c = (s.headers slab).sizeClassIndex
        · subst hc
          rw [Function.update_self]
          exact hchain.cons (by simp [Links.setNext, Links.write])
        · rw [Function.update_of_ne hc]
          exact hchain
      belongs := fun place h c howner p hp => by
        rw [withHand_of_owner _ howner] at hp
        exact (hinv.belongs place h c howner p hp).congr rfl rfl
      counts := fun head p hp hbusy => hinv.counts head p (by simpa using hp) hbusy
      orphans := fun c p hp => by
        have hold : s.Orphan handles c p := by
          rcases (s.pool.mem_abandonSlab _ _ _).mp hp with ⟨rfl, rfl⟩ | hp
          · exact horphan
          · exact hinv.orphans c p hp
        exact hold.congr rfl le_rfl hold.noHeap
      slabs := fun p hp => hinv.slabs p ((hheld p).mp hp)
      serves := fun a ha => (hinv.serves a ha).congr
        (fun p hp _ => ⟨(hheld p).mpr hp, rfl⟩) fun hlarge => hlarge }

/-- A heap that takes over a slab in hand clears its links and writes its id. -/
theorem HeapInv.claim (hinv : HeapInv s live lists roster handles none) (hslab : slab ∈ lists .hand)
    (h : ℕ) :
    HeapInv (s.claim h slab) live lists roster handles none := by
  have hlinks :
      HeapInv { s with links := (s.links.setNext slab none).setPrev slab none } live lists
        roster handles none :=
    hinv.linksInHand hslab rfl fun p hp => by simp [Links.setNext, Links.write, Links.setPrev, hp]
  have hok := (hinv.slabs slab (hinv.held hslab)).setHeapId (s.heap h).id
  have hcontent := hlinks.content (hinv.held hslab) (.inl rfl)
    (show SlabHeader.sizeClassIndex { s.headers slab with
      heapId := (s.heap h).id } = _ from rfl) (.inr hslab) hok
    (fun _ _ => rfl) (fun a ha _ => ha) hlinks.serves hinv.liveOnce
  exact hcontent.settle_of_notMem (hinv.notMem_queue hslab)

/-- The links of a slab that was taken over are null. -/
theorem HeapSys.claim_links (s : HeapSys) (h slab : ℕ) :
    (s.claim h slab).links.next slab = none ∧ (s.claim h slab).links.prev slab = none := by
  simp [HeapSys.claim, Links.setNext, Links.setPrev, Links.write]

/-- The counters of a heap are not part of the invariant. -/
theorem HeapInv.count (hinv : HeapInv s live lists roster handles none) (h : ℕ)
    (f : HeapMetrics → HeapMetrics) :
    HeapInv (s.count h f) live lists roster handles none := by
  have hheap (h' : ℕ) : ((s.count h f).heap h').id = (s.heap h').id ∧
      ((s.count h f).heap h').bins = (s.heap h').bins := by
    by_cases hh : h' = h
    · subst hh
      simp [HeapSys.count, HeapSys.setHeap]
    · simp [HeapSys.count, HeapSys.setHeap, hh]
  refine hinv.relink none hinv.separate (fun _ => Iff.rfl)
    (fun h' c => ?_) hinv.linked hinv.binLinks
    (fun _ _ _ => rfl) hinv.belongs hinv.counts (fun h' => (hheap h').1)
  rw [show (Function.update s.heap h _ h').bins = _ from (hheap h').2]
  exact hinv.bins h' c

/-- A page of the pool becomes a slab in hand. -/
theorem HeapInv.takeSlabOnto (hinv : HeapInv s live lists roster handles none)
    (hgives : s.pool.Gives pool (some page)) (c id : ℕ) :
    HeapInv (HeapSys.slabInit { s with
      pool := pool } page c id) live (withHand lists (page :: lists .hand)) roster
      handles none := by
  obtain ⟨hquiet, hinUse, habandoned, hlarge⟩ := hgives
  rw [Option.toList_some, List.singleton_append] at hinUse
  obtain ⟨hnodup, -, happart, -⟩ := hquiet.lists_apart
  rw [hinUse, List.nodup_cons] at hnodup
  have hnew (place : SlabPlace) : page ∉ lists place :=
    fun hin => hnodup.1 ((hinv.inUse page).mpr ⟨place, hin⟩)
  have hold (c : ℕ) : page ∉ s.pool.abandoned c := fun hin => by
    refine happart c (show page ∈ pool.inUse from ?_) (by rwa [habandoned])
    simp [hinUse]
  have hnotHeld : ¬s.pool.Held page := by
    rintro (hin | ⟨c, hin⟩)
    · exact hnodup.1 hin
    · exact hold c hin
  have hheld {p : ℕ} (hp : p ≠ page) : pool.Held p ↔ s.pool.Held p := by
    rw [PagePool.Held, PagePool.Held, hinUse, habandoned, List.mem_cons]
    simp [hp]
  have hlinks (p : ℕ) (hp : p ≠ page) :
      ((s.links.setNext page none).setPrev page none).next p = s.links.next p ∧
      ((s.links.setNext page none).setPrev page none).prev p = s.links.prev p := by
    simp [Links.setNext, Links.setPrev, Links.write, hp]
  have hheader {p : ℕ} (hp : p ≠ page) :
      Function.update s.headers page (SlabHeader.init c id) p = s.headers p :=
        Function.update_of_ne hp _ _
  have hnePlace {place : SlabPlace} {p : ℕ} (hp : p ∈ lists place) : p ≠ page := by
    rintro rfl
    exact hnew place hp
  have hneOld {c p : ℕ} (hp : p ∈ s.pool.abandoned c) : p ≠ page := by
    rintro rfl
    exact hold c hp
  exact
    { hinv with
      quiet := hquiet
      separate := by
        have hnodup := List.nodup_cons.mpr ⟨hnew .hand, hinv.separate.nodup .hand⟩
        refine withHand_separate hinv.separate hnodup fun place hplace p hp hin => ?_
        rcases List.mem_cons.mp hp with rfl | hp
        · exact hnew place hin
        · exact hplace (hinv.separate.unique hin hp)
      inUse := fun p => by
        change p ∈ pool.inUse ↔ _
        rw [hinUse, List.mem_cons, hinv.mem_inUse, exists_mem_withHand, List.mem_cons, or_assoc]
      bins := fun h c => by
        rw [withHand_bin]
        exact hinv.bins h c
      linked := by
        simp only [withHand_queue]
        exact hinv.linked.congr rfl fun head p hp => hlinks p (hnePlace hp)
      binLinks := fun h c p hp => by
        rw [withHand_bin] at hp
        have hframe := hlinks p (hnePlace hp)
        exact ⟨hframe.1.trans (hinv.binLinks h c p hp).1, hframe.2.trans (hinv.binLinks h c p hp).2⟩
      abandoned := fun c => by
        change Chain _ (pool.abandoned c).head? (pool.abandoned c)
        rw [habandoned]
        exact (hinv.abandoned c).congr fun p hp => (hlinks p (hneOld hp)).1
      belongs := fun place h c howner p hp => by
        rw [withHand_of_owner _ howner] at hp
        exact (hinv.belongs place h c howner p hp).congr (hheader (hnePlace hp)) rfl
      counts := fun head p hp hbusy => by
        rw [withHand_queue] at hp
        change head.queue.CountOk (Function.update s.headers page _ p)
        rw [hheader (hnePlace hp)]
        exact hinv.counts head p hp hbusy
      orphans := fun c p hp => by
        change p ∈ pool.abandoned c at hp
        rw [habandoned] at hp
        exact (hinv.orphans c p hp).congr (hheader (hneOld hp)) le_rfl (hinv.orphans c p hp).noHeap
      slabs := fun p hp => by
        change SlabOk s.next live p (Function.update s.headers page _ p)
        by_cases hps : p = page
        · subst hps
          rw [Function.update_self]
          refine slabOk_init p c id s.next fun a ha hserved => hnotHeld ?_
          have hserves := (hinv.serves a ha).2
          obtain ⟨idx, hidx⟩ := Option.isSome_iff_exists.mp hserved.1
          rw [hidx, hserved.2] at hserves
          exact hserves.1
        · rw [hheader hps]
          exact hinv.slabs p ((hheld hps).mp hp)
      serves := fun a ha => by
        refine (hinv.serves a ha).congr (fun p hp _ => ?_) fun hin => by
          change _ ∈ pool.core.large
          rwa [hlarge]
        have hps : p ≠ page := by
          rintro rfl
          exact hnotHeld hp
        exact ⟨(hheld hps).mpr hp, congrArg SlabHeader.sizeClassIndex (hheader hps)⟩ }

/-- A page of the pool becomes the one slab in hand. -/
theorem HeapInv.takeSlab (hinv : HeapInv s live lists roster handles none)
    (hhand : lists .hand = []) {reply : Option ℕ}
    (htake : s.pool.takeSlab reply = some (pool, some page)) (c id : ℕ) :
    HeapInv (HeapSys.slabInit { s with
      pool := pool } page c id) live (withHand lists [page]) roster handles none := by
  obtain ⟨hquiet, hinUse, habandoned, hlarge⟩ := hinv.quiet.takeSlab htake
  have htaken := hinv.takeSlabOnto ⟨hquiet, hinUse, habandoned, hlarge⟩ c id
  rwa [hhand] at htaken

/-- The hand as it is. -/
theorem withHand_self (lists : SlabPlace → List ℕ) : withHand lists (lists .hand) = lists := by
  rw [withHand, Function.update_eq_self]

/-- Only the large regions change. -/
theorem HeapInv.relarge (hinv : HeapInv s live lists roster handles none) (hquiet : Quiet pool)
    (hinUse : pool.inUse = s.pool.inUse) (habandoned : pool.abandoned = s.pool.abandoned)
    (hlive : ∀ a ∈ live', (classIndex a.layout).isSome = true → a ∈ live)
    (hserves : ∀ a ∈ live', HeapSys.Serves { s with pool := pool } a)
    (honce : (live'.map Allocation.ptr).Nodup) :
    HeapInv { s with pool := pool } live' lists roster handles none := by
  have hheld (p : ℕ) : pool.Held p ↔ s.pool.Held p := by
    rw [PagePool.Held, PagePool.Held, hinUse, habandoned]
  have hrepool := hinv.repool (lists .hand) hquiet (by rw [withHand_self]; exact hinv.separate)
    (fun p => by rw [hinUse]; exact hinv.mem_inUse p) (fun c => .inl (congrFun habandoned c))
    (fun p hp => (hheld p).mp hp) hlive hserves honce
  rwa [withHand_self] at hrepool

/-- The pool found nothing to hand out: the heaps are as before. -/
theorem HeapInv.poolOnly (hinv : HeapInv s live lists roster handles none) (hquiet : Quiet pool)
    (hinUse : pool.inUse = s.pool.inUse) (habandoned : pool.abandoned = s.pool.abandoned)
    (hlarge : pool.core.large = s.pool.core.large) :
    HeapInv { s with pool := pool } live lists roster handles none := by
  refine hinv.relarge hquiet hinUse habandoned (fun a ha _ => ha) (fun a ha => ?_) hinv.liveOnce
  refine (hinv.serves a ha).congr (fun p hp _ => ⟨?_, rfl⟩) fun hin => ?_
  · change pool.Held p
    rw [PagePool.Held, hinUse, habandoned]
    exact hp
  · change _ ∈ pool.core.large
    rw [hlarge]
    exact hin

/-- The pool found no page. -/
theorem HeapInv.takeSlab_none (hinv : HeapInv s live lists roster handles none) {reply : Option ℕ}
    (htake : s.pool.takeSlab reply = some (pool, none)) :
    HeapInv { s with pool := pool } live lists roster handles none := by
  obtain ⟨hquiet, hinUse, habandoned, hlarge⟩ := hinv.quiet.takeSlab htake
  exact hinv.poolOnly hquiet hinUse habandoned hlarge

/-- `alloc_large` hands out a region at no live address. -/
theorem HeapInv.allocLarge (hinv : HeapInv s live lists roster handles none) {layout : Layout}
    (hlayout : classIndex layout = none) (hsize : 1 ≤ layout.size) {reply : Option ℕ} {ptr : ℕ}
    (halloc : s.pool.allocLargeToEnd layout.size layout.align reply = some (pool, some ptr)) :
    HeapInv { s with pool := pool } (⟨ptr, layout⟩ :: live) lists roster handles none := by
  obtain ⟨hquiet, hinUse, habandoned, hlarge, hptr⟩ := hinv.quiet.allocLarge halloc
  have hlarge' : pool.core.large = (ptr, layout.size) :: s.pool.core.large := hlarge
  have hnew : (ptr, layout.size) ∈ pool.core.large := by simp [hlarge']
  have hheld (p : ℕ) : pool.Held p ↔ s.pool.Held p := by
    rw [PagePool.Held, PagePool.Held, hinUse, habandoned]
  have hnodup := hquiet.large_nodup
  rw [hlarge', List.nodup_cons] at hnodup
  have hfresh : ptr ∉ live.map Allocation.ptr := by
    intro hin
    obtain ⟨a, ha, rfl⟩ := List.mem_map.mp hin
    obtain ⟨-, hplace⟩ := hinv.serves a ha
    cases hclass : classIndex a.layout with
    | none =>
      rw [hclass] at hplace
      have hold : (a.ptr, a.layout.size) ∈ pool.core.large := by simp [hlarge', hplace.1]
      rw [hquiet.large_size hnew hold] at hplace
      exact hnodup.1 hplace.1
    | some idx =>
      rw [hclass] at hplace
      have hmask := slabMask_le a.ptr
      rcases hquiet.page_apart ((hheld _).mpr hplace.1) hnew with happart | happart <;> omega
  refine hinv.relarge hquiet hinUse habandoned (fun a ha hsome => ?_) (fun a ha => ?_)
    (List.nodup_cons.mpr ⟨hfresh, hinv.liveOnce⟩)
  · rcases List.mem_cons.mp ha with rfl | hin
    · simp [hlayout] at hsome
    · exact hin
  · rcases List.mem_cons.mp ha with rfl | hin
    · refine ⟨hsize, ?_⟩
      rw [hlayout]
      exact ⟨hnew, (hptr ptr rfl).2⟩
    · exact (hinv.serves a hin).congr (fun p hp _ => ⟨(hheld p).mpr hp, rfl⟩) fun hin => by
        change _ ∈ pool.core.large
        simp [hlarge', hin]

/-- The page allocator had no region. -/
theorem HeapInv.allocLarge_none (hinv : HeapInv s live lists roster handles none) {size align : ℕ}
    {reply : Option ℕ} (halloc : s.pool.allocLargeToEnd size align reply = some (pool, none)) :
    HeapInv { s with pool := pool } live lists roster handles none := by
  obtain ⟨hquiet, hinUse, habandoned, hlarge, -⟩ := hinv.quiet.allocLarge halloc
  exact hinv.poolOnly hquiet hinUse habandoned hlarge

/-- `dealloc_large` gives the region of a live allocation back. -/
theorem HeapInv.deallocLarge (hinv : HeapInv s live lists roster handles none) {a : Allocation}
    (ha : a ∈ live) (hlayout : classIndex a.layout = none) :
    HeapInv { s with pool := s.pool.deallocLargeToEnd a.ptr a.layout.size }
      (live.erase a) lists roster handles
      none := by
  have hserves := (hinv.serves a ha).2
  rw [hlayout] at hserves
  obtain ⟨hquiet, hinUse, hlarge⟩ := hinv.quiet.deallocLarge hserves.1
  have honce := hinv.liveOnce
  have hnodup : live.Nodup := honce.of_map _
  refine hinv.relarge hquiet hinUse rfl (fun b hb _ => List.mem_of_mem_erase hb) (fun b hb => ?_)
    (honce.sublist (List.erase_sublist.map _))
  obtain ⟨hne, hmem⟩ := hnodup.mem_erase_iff.mp hb
  refine (hinv.serves b hmem).congr (fun p hp _ => ⟨?_, rfl⟩) fun hin => ?_
  · change (s.pool.deallocLargeToEnd a.ptr a.layout.size).Held p
    rw [PagePool.Held, hinUse]
    exact hp
  · change _ ∈ (s.pool.deallocLargeToEnd a.ptr a.layout.size).core.large
    rw [hlarge, List.mem_erase_of_ne]
    · exact hin
    · intro heq
      exact hne (List.inj_on_of_nodup_map honce hmem ha (Prod.mk.inj heq).1)

end ClMalloc
