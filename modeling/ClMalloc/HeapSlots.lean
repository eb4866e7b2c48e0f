import ClMalloc.HeapPool

/-!
# The free slots of a slab, and draining them

A slot is free when it is on the slab's local list, not carved yet, or on its remote stack.
Draining moves the remote stack to the local list: the slab keeps its free slots, and after
it they are all available to its owner. What the heaps do with a slab they come across
depends on whether all, some or none of its slots are free.
-/

namespace ClMalloc

open Intrusive Placement Transition

/-- The free slots of a slab: available ones and those on the remote stack. -/
def HeapSys.freeTotal (s : HeapSys) (slab : ℕ) : ℕ :=
  (s.headers slab).freeCount + ((s.headers slab).remoteSlots s.next).length

/-- Every slot of the slab is free. -/
def HeapSys.allFree (s : HeapSys) (slab : ℕ) : Bool :=
  s.freeTotal slab == (s.headers slab).slotCount

/-- No slot of the slab is free. -/
def HeapSys.noneFree (s : HeapSys) (slab : ℕ) : Bool := s.freeTotal slab == 0

/-- Some slots of the slab are free, but not all. -/
def HeapSys.partFree (s : HeapSys) (slab : ℕ) : Bool := !s.allFree slab && !s.noneFree slab

/-- The slab has the same header and the same words in its page. -/
structure HeapSys.SameSlab (s s' : HeapSys) (slab : ℕ) : Prop where
  header : s'.headers slab = s.headers slab
  words : ∀ p, slabMask p = slab → s'.next p = s.next p

/-- The remote stack of the slab was moved to its local list. -/
structure HeapSys.Merged (s s' : HeapSys) (slab : ℕ) : Prop where
  header : ∃ id list, s'.headers slab = { s.headers slab with
    heapId := id, remoteHead := none, localList := list }
  slots : (s'.headers slab).localSlots s'.next =
    ((s.headers slab).remoteSlots s.next).reverse ++ (s.headers slab).localSlots s.next
  count : (s'.headers slab).freeCount = s.freeTotal slab
  words : ∀ p, slabMask p = slab → p ∉ (s.headers slab).remoteSlots s.next → s'.next p = s.next p

/-- The remote stack of one slab was moved, and nothing else changed. -/
structure HeapSys.Drains (s s' : HeapSys) (slab : ℕ) : Prop where
  merged : s.Merged s' slab
  others : ∀ p, p ≠ slab → s.SameSlab s' p
  id : (s'.headers slab).heapId = (s.headers slab).heapId
  pool : s'.pool = s.pool
  links : s'.links = s.links
  heap : s'.heap = s.heap

variable {s s' s₁ s₂ : HeapSys} {live : List Allocation} {lists : SlabPlace → List ℕ}
  {roster handles : List ℕ} {busy : Option ℕ} {slab : ℕ}

/-- A slab is the same as itself. -/
theorem HeapSys.SameSlab.refl (s : HeapSys) (slab : ℕ) : s.SameSlab s slab := ⟨rfl, fun _ _ => rfl⟩

/-- A slab that stays the same twice is the same. -/
theorem HeapSys.SameSlab.trans (h : s.SameSlab s₁ slab) (h' : s₁.SameSlab s₂ slab) :
    s.SameSlab s₂ slab :=
  ⟨h'.header.trans h.header, fun p hp => (h'.words p hp).trans (h.words p hp)⟩

/-- The free lists of a slab that stays the same. -/
theorem HeapInv.walks_eq (hinv : HeapInv s live lists roster handles busy)
    (hslab : s.pool.Held slab) (h : s.SameSlab s' slab) :
    (s'.headers slab).localSlots s'.next = (s.headers slab).localSlots s.next ∧
      (s'.headers slab).remoteSlots s'.next = (s.headers slab).remoteSlots s.next := by
  rw [h.header]
  exact (hinv.slabs slab hslab).walks_congr (hinv.quiet.aligned hslab).1 h.words

/-- The free slots of a slab that stays the same. -/
theorem HeapInv.freeTotal_eq (hinv : HeapInv s live lists roster handles busy)
    (hslab : s.pool.Held slab) (h : s.SameSlab s' slab) : s'.freeTotal slab = s.freeTotal slab := by
  rw [HeapSys.freeTotal, HeapSys.freeTotal, (hinv.walks_eq hslab h).2, h.header]

/-- A slab that stays the same is treated the same. -/
theorem HeapInv.kinds_eq (hinv : HeapInv s live lists roster handles busy)
    (hslab : s.pool.Held slab) (h : s.SameSlab s' slab) :
    s'.allFree slab = s.allFree slab ∧ s'.noneFree slab = s.noneFree slab ∧
      s'.partFree slab = s.partFree slab := by
  have htotal := hinv.freeTotal_eq hslab h
  unfold HeapSys.partFree HeapSys.allFree HeapSys.noneFree
  rw [htotal, h.header]
  exact ⟨rfl, rfl, rfl⟩

/-- A slab has all, some or none of its slots free. -/
theorem HeapInv.kinds (hinv : HeapInv s live lists roster handles busy) (hslab : s.pool.Held slab) :
    (s.allFree slab = true ∧ s.partFree slab = false ∧ s.noneFree slab = false) ∨
      (s.allFree slab = false ∧ s.partFree slab = true ∧ s.noneFree slab = false) ∨
      (s.allFree slab = false ∧ s.partFree slab = false ∧ s.noneFree slab = true) := by
  have hpos := (hinv.slabs slab hslab).slotCount_pos
  unfold HeapSys.partFree HeapSys.allFree HeapSys.noneFree
  generalize s.freeTotal slab = total at *
  by_cases hall : total = (s.headers slab).slotCount
  · have hne : total ≠ 0 := by omega
    exact .inl ⟨by simp [hall], by simp [hall], by simpa using hne⟩
  · by_cases hnone : total = 0
    · exact .inr (.inr ⟨by simpa using hall, by simp [hnone], by simp [hnone]⟩)
    · exact .inr (.inl ⟨by simpa using hall, by simp [hall, hnone], by simpa using hnone⟩)

/-- No slab of a list has some of its slots free exactly when each has none free or all. -/
theorem HeapInv.filter_partFree_eq_nil_iff (hinv : HeapInv s live lists roster handles busy)
    {slabs : List ℕ} (hslabs : ∀ p ∈ slabs, s.pool.Held p) :
    slabs.filter s.partFree = [] ↔ ∀ p ∈ slabs, s.noneFree p = true ∨ s.allFree p = true := by
  rw [List.filter_eq_nil_iff]
  refine forall₂_congr fun p hp => ?_
  rcases hinv.kinds (hslabs p hp) with hkind | hkind | hkind <;>
    simp [hkind.1, hkind.2.1, hkind.2.2]

/-- A slab that was the same before it was drained. -/
theorem HeapInv.merged_of_same (hinv : HeapInv s live lists roster handles busy)
    (hslab : s.pool.Held slab) (hbefore : s.SameSlab s₁ slab) (h : s₁.Merged s₂ slab) :
    s.Merged s₂ slab := by
  obtain ⟨hlocal, hremote⟩ := hinv.walks_eq hslab hbefore
  refine ⟨?_, ?_, ?_, fun p hp hnot => ?_⟩
  · obtain ⟨id, list, hlist⟩ := h.header
    exact ⟨id, list, by rw [hlist, hbefore.header]⟩
  · rw [h.slots, hlocal, hremote]
  · rw [h.count, hinv.freeTotal_eq hslab hbefore]
  · rw [h.words p hp (by rw [hremote]; exact hnot), hbefore.words p hp]

/-- A slab that stays the same after it was drained. -/
theorem HeapSys.Merged.of_same (h : s.Merged s₁ slab)
    (hok : SlabOk s₁.next live slab (s₁.headers slab)) (haligned : slabSize ∣ slab)
    (hafter : s₁.SameSlab s₂ slab) : s.Merged s₂ slab := by
  refine ⟨?_, ?_, ?_, fun p hp hnot => ?_⟩
  · rw [hafter.header]
    exact h.header
  · rw [hafter.header, (hok.walks_congr haligned hafter.words).1]
    exact h.slots
  · rw [hafter.header]
    exact h.count
  · rw [hafter.words p hp, h.words p hp hnot]

/-- A slab that stays the same is as well formed as before. -/
theorem HeapSys.SameSlab.slabOk (h : s.SameSlab s' slab)
    (hok : SlabOk s.next live slab (s.headers slab)) (haligned : slabSize ∣ slab) :
    SlabOk s'.next live slab (s'.headers slab) := by
  rw [h.header]
  exact hok.congr_next haligned h.words

/-- A slab with an empty remote stack needs no draining. -/
theorem HeapSys.Merged.refl (hremote : (s.headers slab).remoteHead = none) : s.Merged s slab := by
  have hwalk : (s.headers slab).remoteSlots s.next = [] := by
    rw [SlabHeader.remoteSlots, hremote]
    unfold walk
    rfl
  refine ⟨⟨(s.headers slab).heapId, (s.headers slab).localList, ?_⟩, by simp [hwalk],
    by simp [HeapSys.freeTotal, hwalk], fun _ _ _ => rfl⟩
  rw [← hremote]

/-- What a drained slab has available tells what was free in it. -/
theorem HeapSys.Merged.kinds (h : s.Merged s' slab) :
    (s'.headers slab).isFullyFree = s.allFree slab ∧
      (0 < (s'.headers slab).freeCount ↔ s.noneFree slab = false) := by
  obtain ⟨id, list, hlist⟩ := h.header
  have hslots : (s'.headers slab).slotCount = (s.headers slab).slotCount := by rw [hlist]
  refine ⟨by rw [SlabHeader.isFullyFree, h.count, hslots, HeapSys.allFree], ?_⟩
  rw [h.count, HeapSys.noneFree, beq_eq_false_iff_ne]
  exact Nat.pos_iff_ne_zero

/-- Draining makes no slot free that was not, and takes none. -/
theorem HeapSys.Merged.freeTotal_eq (h : s.Merged s' slab) :
    s'.freeTotal slab = s.freeTotal slab := by
  obtain ⟨id, list, hlist⟩ := h.header
  have hwalk : (s'.headers slab).remoteSlots s'.next = [] := by
    rw [hlist, SlabHeader.remoteSlots]
    unfold walk
    rfl
  rw [HeapSys.freeTotal, hwalk, h.count]
  rfl

/-- Draining a slab does not change what is free in it. -/
theorem HeapSys.Merged.kinds_eq (h : s.Merged s' slab) :
    s'.allFree slab = s.allFree slab ∧ s'.noneFree slab = s.noneFree slab ∧
      s'.partFree slab = s.partFree slab := by
  obtain ⟨id, list, hlist⟩ := h.header
  have hslots : (s'.headers slab).slotCount = (s.headers slab).slotCount := by rw [hlist]
  unfold HeapSys.partFree HeapSys.allFree HeapSys.noneFree
  rw [h.freeTotal_eq, hslots]
  exact ⟨rfl, rfl, rfl⟩

/-- `drain_remote` ends and moves the slots of the remote stack to the local list. -/
theorem HeapInv.drainRemote (hinv : HeapInv s live lists roster handles none)
    (hslab : s.pool.Held slab) :
    ∃ next list, s.drainRemote slab = .ok { s with
        next := next
        headers := Function.update s.headers slab { s.headers slab with
          remoteHead := none, localList := list } } ∧
      HeapInv { s with
        next := next
        headers := Function.update s.headers slab { s.headers slab with
          remoteHead := none, localList := list } }
        live lists roster handles (some slab) ∧
      SlabHeader.localSlots { s.headers slab with remoteHead := none, localList := list } next =
        ((s.headers slab).remoteSlots s.next).reverse ++ (s.headers slab).localSlots s.next ∧
      SlabHeader.freeCount { s.headers slab with remoteHead := none, localList := list } =
        (s.headers slab).freeCount + ((s.headers slab).remoteSlots s.next).length ∧
      ∀ p, p ∉ (s.headers slab).remoteSlots s.next → next p = s.next p := by
  have hok := hinv.slabs slab hslab
  obtain ⟨next, header, list, heq, rfl, hok', hslots, hcount, hframe⟩ := hok.drainRemote
  refine ⟨next, list, by simp [HeapSys.drainRemote, heq], ?_, hslots, hcount, hframe⟩
  have haligned := (hinv.quiet.aligned hslab).1
  refine hinv.content hslab (.inl rfl) rfl (.inl rfl) hok' (fun p hp => hframe p fun hin => ?_)
    (fun a ha _ => ha)
    hinv.serves hinv.liveOnce
  obtain ⟨i, -, -, -, -, hmask⟩ := slot_geometry haligned (hok.mem_remoteSlots hin).1
  exact hp hmask

/-- `drain_remote` ends and moves the remote stack of the slab. -/
theorem HeapInv.drains (hinv : HeapInv s live lists roster handles none)
    (hslab : s.pool.Held slab) :
    ∃ s', s.drainRemote slab = .ok s' ∧ HeapInv s' live lists roster handles (some slab) ∧
      s.Drains s' slab := by
  obtain ⟨next, list, heq, hinv', hslots, hcount, hframe⟩ := hinv.drainRemote hslab
  refine ⟨_, heq, hinv', ⟨⟨(s.headers slab).heapId, list, by simp⟩, ?_, ?_,
    fun p _ hp => hframe p hp⟩, fun p hp => ⟨by simp [hp], ?_⟩, by simp, rfl, rfl, rfl⟩
  · simpa using hslots
  · simpa [HeapSys.freeTotal] using hcount
  · intro q hq
    apply hframe
    intro hin
    obtain ⟨i, -, -, -, -, hmask⟩ := slot_geometry (hinv.quiet.aligned hslab).1
      ((hinv.slabs slab hslab).mem_remoteSlots hin).1
    exact hp (hq.symm.trans hmask)

/-- The drain of `scan_full_list`, made only when something is pending, leaves the slab drained. -/
theorem HeapInv.drainPending (hinv : HeapInv s live lists roster handles none)
    (hslab : s.pool.Held slab) :
    ∃ s', s.drainPending slab = .ok s' ∧ HeapInv s' live lists roster handles (some slab) ∧
      s.Drains s' slab := by
  unfold HeapSys.drainPending
  by_cases hpending : (s.headers slab).hasPendingRemote = true
  · rw [if_pos hpending]
    exact hinv.drains hslab
  · rw [if_neg hpending]
    have hremote : (s.headers slab).remoteHead = none := by
      simpa [SlabHeader.hasPendingRemote] using hpending
    exact ⟨s, rfl, hinv.doubt slab, .refl hremote, fun p _ => .refl s p, rfl, rfl, rfl, rfl⟩

/-- What a walk over the slabs `seen` does to them: each is drained once and passed to `move` with
whether all its slots are free. Those in `used` served a request on the way. -/
structure Sweep (move : PagePool → ℕ × Bool → Option PagePool) (live : List Allocation)
    (s s' : HeapSys) (seen used : List ℕ) : Prop where
  pool : run move s.pool (seen.map fun p => (p, s.allFree p)) = some s'.pool
  merged : ∀ p ∈ seen, p ∉ used → s.Merged s' p
  wellFormed : ∀ p ∈ seen, p ∉ used → SlabOk s'.next live p (s'.headers p)
  same : ∀ p, p ∉ seen → s.SameSlab s' p
  ids : ∀ h, (s'.heap h).id = (s.heap h).id
  metrics : ∀ h, (s'.heap h).metrics = (s.heap h).metrics

variable {move : PagePool → ℕ × Bool → Option PagePool} {seen seen' used used' : List ℕ}

/-- Links and bins change, and no slab is seen. -/
theorem Sweep.still (hheaders : s'.headers = s.headers) (hnext : s'.next = s.next)
    (hpool : s'.pool = s.pool)
    (hheap : ∀ h, (s'.heap h).id = (s.heap h).id ∧ (s'.heap h).metrics = (s.heap h).metrics) :
    Sweep move live s s' [] [] where
  pool := by rw [hpool]; rfl
  merged := by simp
  wellFormed := by simp
  same := fun p _ => ⟨by rw [hheaders], fun _ _ => by rw [hnext]⟩
  ids := fun h => (hheap h).1
  metrics := fun h => (hheap h).2

/-- A walk over no slabs does nothing. -/
theorem Sweep.nil : Sweep move live s s [] [] := .still rfl rfl rfl fun _ => ⟨rfl, rfl⟩

/-- What is free in the slabs seen later is not changed by what is done to those seen first. -/
theorem Sweep.kinds_eq {live₀ : List Allocation} (hinv : HeapInv s live₀ lists roster handles busy)
    (hheld : ∀ p ∈ seen ++ seen', s.pool.Held p) (hapart : seen.Disjoint seen')
    (hfirst : Sweep move live s s₁ seen used) {p : ℕ} (hp : p ∈ seen') :
    s₁.allFree p = s.allFree p ∧ s₁.noneFree p = s.noneFree p ∧ s₁.partFree p = s.partFree p :=
  hinv.kinds_eq (hheld p (List.mem_append_right _ hp)) (hfirst.same p fun hin => hapart hin hp)

/-- Some slabs are seen first, then others. -/
theorem Sweep.append {live₀ : List Allocation} (hinv : HeapInv s live₀ lists roster handles busy)
    (hheld : ∀ p ∈ seen ++ seen', s.pool.Held p) (hapart : seen.Disjoint seen')
    (hfirst : Sweep move live s s₁ seen used) (hrest : Sweep move live s₁ s' seen' used') :
    Sweep move live s s' (seen ++ seen') (used ++ used') := by
  have hmap : (seen'.map fun p => (p, s₁.allFree p)) = seen'.map fun p => (p, s.allFree p) :=
    List.map_congr_left fun p hp => by rw [(hfirst.kinds_eq hinv hheld hapart hp).1]
  have hbefore {p : ℕ} (hp : p ∈ seen') : s.SameSlab s₁ p := hfirst.same p fun hin => hapart hin hp
  have hafter {p : ℕ} (hp : p ∈ seen) : s₁.SameSlab s' p := hrest.same p fun hin => hapart hp hin
  have haligned {p : ℕ} (hp : p ∈ seen) :=
    (hinv.quiet.aligned (hheld p (List.mem_append_left _ hp))).1
  constructor
  case pool =>
    rw [List.map_append, run_append, hfirst.pool, ← hmap]
    exact hrest.pool
  case merged =>
    intro p hp hunused
    rw [List.mem_append, not_or] at hunused
    rcases List.mem_append.mp hp with hp | hp
    · exact (hfirst.merged p hp hunused.1).of_same (hfirst.wellFormed p hp hunused.1)
        (haligned hp) (hafter hp)
    · exact hinv.merged_of_same (hheld p (List.mem_append_right _ hp)) (hbefore hp)
        (hrest.merged p hp hunused.2)
  case wellFormed =>
    intro p hp hunused
    rw [List.mem_append, not_or] at hunused
    rcases List.mem_append.mp hp with hp | hp
    · exact (hafter hp).slabOk (hfirst.wellFormed p hp hunused.1) (haligned hp)
    · exact hrest.wellFormed p hp hunused.2
  case same =>
    intro p hp
    rw [List.mem_append, not_or] at hp
    exact (hfirst.same p hp.1).trans (hrest.same p hp.2)
  case ids => exact fun h => (hrest.ids h).trans (hfirst.ids h)
  case metrics => exact fun h => (hrest.metrics h).trans (hfirst.metrics h)

/-- One slab is drained and filed without another change of a slab. -/
theorem Sweep.single (hmerged : s.Merged s₁ slab) (hothers : ∀ p, p ≠ slab → s.SameSlab s₁ p)
    (hheap : s₁.heap = s.heap) (hok : SlabOk s₁.next live slab (s₁.headers slab))
    (hheaders : s'.headers = s₁.headers) (hnext : s'.next = s₁.next)
    (hpool : move s.pool (slab, s.allFree slab) = some s'.pool)
    (hheap' : ∀ h, (s'.heap h).id = (s₁.heap h).id ∧ (s'.heap h).metrics = (s₁.heap h).metrics) :
    Sweep move live s s' [slab] [] where
  pool := by
    rw [List.map_singleton]
    exact run_cons_eq_some.mpr ⟨_, hpool, rfl⟩
  merged := fun p hp _ => by
    rw [List.mem_singleton.mp hp]
    exact ⟨by rw [hheaders]; exact hmerged.header, by rw [hheaders, hnext]; exact hmerged.slots,
      by rw [hheaders]; exact hmerged.count, by rw [hnext]; exact hmerged.words⟩
  wellFormed := fun p hp _ => by
    rw [List.mem_singleton.mp hp, hheaders, hnext]
    exact hok
  same := fun p hp => by
    have hsame := hothers p (by simpa using hp)
    exact ⟨by rw [hheaders]; exact hsame.header, by rw [hnext]; exact hsame.words⟩
  ids := fun h => by rw [(hheap' h).1, hheap]
  metrics := fun h => by rw [(hheap' h).2, hheap]

/-- The live allocations of slabs keep what they hold, and their slabs keep their free slots. -/
def HeapSys.Keeps (s s' : HeapSys) (live : List Allocation) : Prop :=
  ∀ a ∈ live, (classIndex a.layout).isSome = true →
    s'.next a.ptr = s.next a.ptr ∧ s'.freeTotal (slabMask a.ptr) = s.freeTotal (slabMask a.ptr)

/-- What is kept twice is kept. -/
theorem HeapSys.Keeps.trans (h : s.Keeps s₁ live) (h' : s₁.Keeps s₂ live) : s.Keeps s₂ live := by
  intro a ha hclass
  obtain ⟨hword, hfree⟩ := h a ha hclass
  obtain ⟨hword', hfree'⟩ := h' a ha hclass
  exact ⟨hword'.trans hword, hfree'.trans hfree⟩

/-- The slab of a live allocation is held. -/
theorem HeapInv.held_of_live (hinv : HeapInv s live lists roster handles busy) {a : Allocation}
    (ha : a ∈ live) (hclass : (classIndex a.layout).isSome = true) :
    s.pool.Held (slabMask a.ptr) := by
  obtain ⟨c, hc⟩ := Option.isSome_iff_exists.mp hclass
  have hserves := (hinv.serves a ha).2
  rw [hc] at hserves
  exact hserves.1

/-- Slabs that are drained or stay the same keep the live allocations. -/
theorem HeapInv.keeps (hinv : HeapInv s live lists roster handles busy)
    (hslabs : ∀ p, s.pool.Held p → s.Merged s' p ∨ s.SameSlab s' p) : s.Keeps s' live := by
  intro a ha hclass
  have hheld := hinv.held_of_live ha hclass
  rcases hslabs _ hheld with hmerged | hsame
  · refine ⟨hmerged.words _ rfl fun hin => ?_, hmerged.freeTotal_eq⟩
    exact ((hinv.slabs _ hheld).mem_remoteSlots hin).2 a ha ⟨hclass, rfl⟩ rfl
  · exact ⟨hsame.words _ rfl, hinv.freeTotal_eq hheld hsame⟩

/-- A walk over slabs in which none is used keeps the live allocations. -/
theorem Sweep.keeps (hsweep : Sweep move live s s' seen []) {live₀ : List Allocation}
    (hinv : HeapInv s live₀ lists roster handles busy) : s.Keeps s' live₀ := by
  refine hinv.keeps fun p _ => ?_
  by_cases hp : p ∈ seen
  · exact .inl (hsweep.merged p hp (by simp))
  · exact .inr (hsweep.same p hp)

/-- Draining one slab keeps the live allocations. -/
theorem HeapSys.Drains.keeps (hdrains : s.Drains s' slab)
    (hinv : HeapInv s live lists roster handles busy) :
    s.Keeps s' live := by
  refine hinv.keeps fun p _ => ?_
  by_cases hp : p = slab
  · subst hp
    exact .inl hdrains.merged
  · exact .inr (hdrains.others p hp)

end ClMalloc
