import ClMalloc.GlobalAlloc
import ClMalloc.HeapActions

/-!
# What passes between the program and the threads

The program makes heaps and ends them, hands an allocation to a thread that frees it, takes
the ones its requests obtained, and frees from threads without a heap; it writes to its
memory, and free pages are written by the pool. Each of these changes the context and at most
one view, and keeps agreement.
-/

namespace ClMalloc

open Threads Intrusive Placement

/-- A free by a thread without a heap. -/
def HeapSys.deallocDirect (s : HeapSys) (ptr : ℕ) (layout : Layout) : HeapSys :=
  match classIndex layout with
  | some _ => s.deallocRemote (slabMask ptr) ptr
  | none => { s with pool := s.pool.deallocLargeToEnd ptr layout.size }

/-- It is what the global allocator does. -/
theorem GlobalSys.deallocDirect_heaps (g : GlobalSys) (ptr : ℕ) (layout : Layout) :
    g.deallocDirect ptr layout = { g with heaps := g.heaps.deallocDirect ptr layout } := by
  unfold GlobalSys.deallocDirect HeapSys.deallocDirect
  cases classIndex layout <;> rfl

/-- The view of a heap that was just made. -/
def HeapView.born (v : HeapView) (id : ℕ) : HeapView :=
  { v with phase := .alive, id := id, bins := fun _ => none, queues := fun _ _ => [] }

variable {s : HeapSys} {ctx : HeapContext} {views : ℕ → HeapView} {lists : SlabPlace → List ℕ}
  {roster : List ℕ} {allocs : List Allocation} {busy : Option ℕ} {h c page : ℕ} {v v' : HeapView}
  {a : Allocation}

/-- A view in the same phase counts its heap the same. -/
theorem phase_update (views : ℕ → HeapView) (hphase : v'.phase = v.phase) (h h' : ℕ) :
    (Function.update views h v' h').phase = (Function.update views h v h').phase := by
  by_cases hh : h' = h
  · subst hh
    rw [Function.update_self, Function.update_self, hphase]
  · rw [Function.update_of_ne hh, Function.update_of_ne hh]

/-- The words of the program's allocations are read again. -/
theorem HeapSys.Agrees.reread (hagrees : s.Agrees ctx views lists roster allocs busy) :
    s.Agrees ⟨ctx.handles, ctx.live, s.next⟩ views lists roster allocs busy :=
  { hagrees with kept := fun _ _ _ => rfl }

/-- Allocations pass between the program and a thread. -/
theorem HeapSys.Agrees.reown
    (hagrees : s.Agrees ctx (Function.update views h v) lists roster allocs busy)
    {live pending : List Allocation}
    (howned : Divided allocs
      (HeapContext.owned ⟨ctx.handles, live, s.next⟩ (Function.update views h { v with
        pending := pending }))) :
    s.Agrees ⟨ctx.handles, live, s.next⟩ (Function.update views h { v with
      pending := pending }) lists roster allocs
      busy := by
  obtain ⟨hown, hothers⟩ := (Function.forall_update_iff views fun h' w =>
    w.Sees h' s lists).mp hagrees.sees
  have hcarried := (Function.forall_update_iff views fun h' w => ∀ p ∈ w.hand,
    s.Carried ctx.handles h' p).mp
    hagrees.carried
  have hphase := phase_update views (show { v with pending := pending }.phase = v.phase from rfl) h
  exact
    { inv := hagrees.inv
      sees := (Function.forall_update_iff views fun h' w => w.Sees h' s lists).mpr
        ⟨⟨hown.id, hown.bins, hown.queues, hown.header, hown.links⟩, hothers⟩
      hands := by
        rw [hands_update]
        exact hagrees.divided
      carried := (Function.forall_update_iff views fun h' w => ∀ p ∈ w.hand,
        s.Carried ctx.handles h' p).mpr hcarried
      roster := fun h' => by rw [hagrees.roster, hphase]
      handles := fun h' => by rw [hagrees.handles, hphase]
      owned := howned
      balanced := hagrees.balanced
      kept := fun _ _ _ => rfl }

/-- The program hands an allocation to a thread. -/
theorem HeapSys.Agrees.give
    (hagrees : s.Agrees ctx (Function.update views h v) lists roster allocs busy)
    (ha : a ∈ ctx.live) :
    s.Agrees ⟨ctx.handles, ctx.live.erase a, s.next⟩ (Function.update views h { v with
      pending := a :: v.pending })
      lists roster allocs busy := by
  refine hagrees.reown ?_
  have hpassed := hagrees.owned.transfer (show some h ≠ (none : Option ℕ) by simp) ha
  convert hpassed using 1
  funext owner
  cases owner with
  | none => rw [transfer_src (by simp)]; rfl
  | some h' =>
    by_cases hh : h' = h
    · subst hh
      rw [transfer_dst]
      simp [HeapContext.owned]
    · rw [transfer_of_ne (by simp) (by simpa using hh)]
      simp [HeapContext.owned, hh]

/-- The program takes an allocation from a thread. -/
theorem HeapSys.Agrees.receive
    (hagrees : s.Agrees ctx (Function.update views h v) lists roster allocs busy)
    (ha : a ∈ v.pending) :
    s.Agrees ⟨ctx.handles, a :: ctx.live, s.next⟩ (Function.update views h { v with
      pending := v.pending.erase a })
      lists roster allocs busy := by
  refine hagrees.reown ?_
  have hin : a ∈ ctx.owned (Function.update views h v) (some h) := by
    simpa [HeapContext.owned] using ha
  have hpassed := hagrees.owned.transfer (show (none : Option ℕ) ≠ some h by simp) hin
  convert hpassed using 1
  funext owner
  cases owner with
  | none => rw [transfer_dst]; rfl
  | some h' =>
    by_cases hh : h' = h
    · subst hh
      rw [transfer_src (by simp)]
      simp [HeapContext.owned]
    · rw [transfer_of_ne (by simpa using hh) (by simp)]
      simp [HeapContext.owned, hh]

/-- A thread without a heap frees an allocation. -/
theorem HeapSys.Agrees.deallocDirect (hagrees : s.Agrees ctx views lists roster allocs none)
    (ha : a ∈ ctx.live) :
    (s.deallocDirect a.ptr a.layout).Agrees ⟨ctx.handles, ctx.live.erase a,
      s.next⟩ views lists roster (allocs.erase a) none := by
  -- Any view can lend its place to the allocation for the length of the action.
  have hlent : s.Agrees ctx (Function.update views 0 (views 0)) lists roster allocs none := by
    rwa [Function.update_eq_self]
  have hgiven := hlent.give ha
  have hback : Function.update views 0 { views 0 with
      pending := (a :: (views 0).pending).erase a } = views := by
    rw [List.erase_cons_head]
    exact Function.update_eq_self 0 views
  unfold HeapSys.deallocDirect
  cases hclass : classIndex a.layout with
  | some c =>
    have hfreed := hgiven.deallocRemote List.mem_cons_self hclass
    rwa [hback] at hfreed
  | none =>
    have hfreed := hgiven.deallocLarge List.mem_cons_self hclass
    rwa [hback] at hfreed

/-- The program makes a heap. -/
theorem HeapSys.Agrees.newHeap
    (hagrees : s.Agrees ctx (Function.update views h v) lists roster allocs busy)
    (hgone : v.phase = .gone) (hhand : v.hand = []) :
    (s.newHeap h).Agrees ⟨h :: ctx.handles, ctx.live, s.next⟩
      (Function.update views h (v.born s.nextHeapId)) lists (h :: roster) allocs busy := by
  have hnew : h ∉ roster := by
    rw [hagrees.roster, Function.update_self, hgone]
    simp
  obtain ⟨hown, hothers⟩ := (Function.forall_update_iff views fun h' w =>
    w.Sees h' s lists).mp hagrees.sees
  obtain ⟨-, hcarried⟩ := (Function.forall_update_iff views fun h' w => ∀ p ∈ w.hand,
    s.Carried ctx.handles h' p).mp
    hagrees.carried
  have hheap {h' : ℕ} (hh' : h' ≠ h) : (s.newHeap h).heap h' = s.heap h' :=
    Function.update_of_ne hh' _ _
  have hself : (s.newHeap h).heap h = ⟨s.nextHeapId, fun _ => none, .zero⟩ :=
    Function.update_self _ _ _
  have hnone (slab : ℕ) : ¬(v.born s.nextHeapId).Has slab := by
    rintro (⟨c, hin⟩ | ⟨queue, c, hin⟩ | hin)
    · cases hin
    · cases hin
    · simp [HeapView.born, hhand] at hin
  exact
    { inv := hagrees.inv.newHeap hnew
      sees := (Function.forall_update_iff views fun h' w => w.Sees h' (s.newHeap h) lists).mpr
        ⟨⟨by rw [hself]; rfl, by rw [hself]; rfl,
            fun queue c => hagrees.inv.place_nil hnew
              (show SlabPlace.owner (.queue ⟨h, queue, c⟩) = some (h, c) from rfl),
            fun p hp => absurd hp (hnone p), fun p hp => absurd (.inr (.inr hp)) (hnone p)⟩,
          fun h' hh' => by
            have hold := hothers h' hh'
            exact ⟨by rw [hheap hh']; exact hold.id, by rw [hheap hh']; exact hold.bins,
              hold.queues, hold.header, hold.links⟩⟩
      hands := by
        rw [hands_update]
        exact hagrees.divided
      carried := (Function.forall_update_iff views fun h' w =>
          ∀ p ∈ w.hand, (s.newHeap h).Carried (h :: ctx.handles) h' p).mpr
        ⟨fun p hp => absurd (.inr (.inr hp)) (hnone p), fun h' hh' p hp => by
          have hold := hcarried h' hh' p hp
          refine ⟨hold.range, hold.old.trans (Nat.lt_succ_self _), fun h'' hin hne => ?_⟩
          by_cases hh'' : h'' = h
          · subst hh''
            rw [hself]
            exact hold.old.ne
          · rw [hheap hh'']
            exact hold.others h'' ((List.mem_cons.mp hin).resolve_left hh'') hne⟩
      roster := fun h' => by
        rw [List.mem_cons, hagrees.roster]
        by_cases hh' : h' = h
        · subst hh'
          simp [HeapView.born]
        · simp [hh']
      handles := fun h' => by
        rw [List.mem_cons, hagrees.handles]
        by_cases hh' : h' = h
        · subst hh'
          simp [HeapView.born]
        · simp [hh']
      owned := by
        rw [HeapContext.owned_update]
        exact hagrees.shared
      balanced := hagrees.balanced
      kept := fun _ _ _ => rfl }

/-- The program ends a heap. -/
theorem HeapSys.Agrees.retire
    (hagrees : s.Agrees ctx (Function.update views h v) lists roster allocs busy)
    (halive : v.phase = .alive) :
    s.Agrees ⟨ctx.handles.erase h, ctx.live, s.next⟩ (Function.update views h { v with
      phase := .ending }) lists roster
      allocs busy := by
  obtain ⟨hown, hothers⟩ := (Function.forall_update_iff views fun h' w =>
    w.Sees h' s lists).mp hagrees.sees
  have hcarried (h' p : ℕ) (hp : s.Carried ctx.handles h' p) :
      s.Carried (ctx.handles.erase h) h' p :=
    ⟨hp.range, hp.old, fun h'' hin => hp.others h'' (List.mem_of_mem_erase hin)⟩
  have hhands := (Function.forall_update_iff views fun h' w => ∀ p ∈ w.hand,
    s.Carried ctx.handles h' p).mp
    hagrees.carried
  exact
    { inv := hagrees.inv.retire h
      sees := (Function.forall_update_iff views fun h' w => w.Sees h' s lists).mpr
        ⟨⟨hown.id, hown.bins, hown.queues, hown.header, hown.links⟩, hothers⟩
      hands := by
        rw [hands_update]
        exact hagrees.divided
      carried := (Function.forall_update_iff views fun h' w => ∀ p ∈ w.hand,
        s.Carried (ctx.handles.erase h) h' p).mpr
        ⟨fun p hp => hcarried h p (hhands.1 p hp),
          fun h' hh' p hp => hcarried h' p (hhands.2 h' hh' p hp)⟩
      roster := fun h' => by
        rw [hagrees.roster]
        by_cases hh' : h' = h
        · subst hh'
          simp [halive]
        · simp [hh']
      handles := fun h' => by
        rw [hagrees.inv.aliveOnce.mem_erase_iff, hagrees.handles]
        by_cases hh' : h' = h
        · subst hh'
          simp
        · simp [hh']
      owned := by
        rw [HeapContext.owned_update]
        exact hagrees.shared
      balanced := hagrees.balanced
      kept := fun _ _ _ => rfl }

/-- A heap that gave up all its slabs is gone. -/
theorem HeapSys.Agrees.bury
    (hagrees : s.Agrees ctx (Function.update views h v) lists roster allocs busy)
    (hending : v.phase = .ending) (hcleared : ∀ c < numClasses, v.Cleared c) :
    s.Agrees ctx (Function.update views h { v with
      phase := .gone }) lists (roster.filter (· ≠ h)) allocs busy := by
  obtain ⟨hown, hothers⟩ := (Function.forall_update_iff views fun h' w =>
    w.Sees h' s lists).mp hagrees.sees
  have hhands := (Function.forall_update_iff views fun h' w => ∀ p ∈ w.hand,
    s.Carried ctx.handles h' p).mp
    hagrees.carried
  have hdead : h ∉ ctx.handles := by
    rw [hagrees.handles, Function.update_self, hending]
    simp
  have hleft (h' : ℕ) (hin : h' ∈ roster) (hout : h' ∉ roster.filter (· ≠ h)) (c : ℕ)
      (hc : c < numClasses) :
      heldIn lists h' c = [] := by
    obtain rfl : h' = h := by simpa [hin] using hout
    have hcleared := hcleared c hc
    have hbin : lists (.bin h' c) = [] := by
      rw [hagrees.inv.bins, hown.bins, hcleared.bin]
      rfl
    rw [heldIn, hbin, hown.queues, hown.queues, hcleared.queues, hcleared.queues]
    rfl
  exact
    { inv := hagrees.inv.shrink (fun _ hin => List.mem_of_mem_filter hin) (fun h' hin => by
        have hne : h' ≠ h := fun heq => hdead (heq ▸ hin)
        simpa [hne] using hagrees.inv.alive h' hin) hleft
      sees := (Function.forall_update_iff views fun h' w => w.Sees h' s lists).mpr
        ⟨⟨hown.id, hown.bins, hown.queues, hown.header, hown.links⟩, hothers⟩
      hands := by
        rw [hands_update]
        exact hagrees.divided
      carried := (Function.forall_update_iff views fun h' w => ∀ p ∈ w.hand,
        s.Carried ctx.handles h' p).mpr hhands
      roster := fun h' => by
        rw [List.mem_filter, hagrees.roster]
        by_cases hh' : h' = h
        · subst hh'
          simp
        · simp [hh']
      handles := fun h' => by
        rw [hagrees.handles]
        by_cases hh' : h' = h
        · subst hh'
          simp [hending]
        · simp [hh']
      owned := by
        rw [HeapContext.owned_update]
        exact hagrees.shared
      balanced := hagrees.balanced
      kept := hagrees.kept }

/-- The program writes to an allocation. -/
theorem HeapSys.Agrees.write (hagrees : s.Agrees ctx views lists roster allocs none)
    (ha : a ∈ ctx.live) (hclass : classIndex a.layout = some c) (value : Option ℕ) :
    HeapSys.Agrees { s with next := Function.update s.next a.ptr value }
      ⟨ctx.handles, ctx.live, Function.update ctx.words a.ptr value⟩ views lists roster
      allocs none := by
  have hall := hagrees.mem_allocs ha
  have hserved : a.ServedFrom (slabMask a.ptr) := ⟨by simp [hclass], rfl⟩
  obtain ⟨hheld, -⟩ := hagrees.inv.slab_of_live hall hclass
  have hbalanced : HeapSys.Balanced
      { s with
        next := Function.update s.next a.ptr value
        headers := Function.update s.headers (slabMask a.ptr)
          (s.headers (slabMask a.ptr)) } allocs := by
    refine hagrees.balanced.content hagrees.inv (fun q hq => update_outside value hq) rfl
      (fun _ _ => rfl) ?_
    rw [(hagrees.inv.slabs _ hheld).remoteSlots_write hall hserved]
    rfl
  rw [Function.update_eq_self] at hbalanced
  exact
    { inv := hagrees.inv.write hall hclass value
      sees := fun h => ⟨(hagrees.sees h).id, (hagrees.sees h).bins, (hagrees.sees h).queues,
        (hagrees.sees h).header, (hagrees.sees h).links⟩
      hands := hagrees.hands
      carried := fun h p hp => ⟨(hagrees.carried h p hp).range, (hagrees.carried h p hp).old,
        (hagrees.carried h p hp).others⟩
      roster := hagrees.roster
      handles := hagrees.handles
      owned := hagrees.owned
      balanced := hbalanced
      kept := fun b hb hsome => by
        by_cases hptr : b.ptr = a.ptr
        · simp [hptr]
        · simpa [hptr] using hagrees.kept b hb hsome }

/-- The pool writes to a free page. -/
theorem HeapSys.Agrees.scribble (hagrees : s.Agrees ctx views lists roster allocs none)
    (hpage : ¬s.pool.Held page) (header : SlabHeader) (words : ℕ → Option ℕ) (nextLink : Option ℕ)
    (prevLink : Option (Cell ℕ QueueHead)) :
    (s.scribble page header words nextLink prevLink).Agrees ctx views lists roster allocs none := by
  have hheader {p : ℕ} (hp : s.pool.Held p) :
      (s.scribble page header words nextLink prevLink).headers p = s.headers p := by
    refine Function.update_of_ne ?_ _ _
    rintro rfl
    exact hpage hp
  have hlinks {p : ℕ} (hp : s.pool.Held p) :
      (s.scribble page header words nextLink prevLink).links.next p = s.links.next p ∧
        (s.scribble page header words nextLink prevLink).links.prev p = s.links.prev p := by
    have hne : p ≠ page := by
      rintro rfl
      exact hpage hp
    simp [HeapSys.scribble, Links.setNext, Links.setPrev, Links.write, hne]
  have hwords {p q : ℕ} (hp : s.pool.Held p) (hq : slabMask q = p) :
      (s.scribble page header words nextLink prevLink).next q = s.next q := by
    refine if_neg ?_
    rintro hpq
    rw [hq] at hpq
    exact hpage (hpq ▸ hp)
  have hheld {h p : ℕ} (hp : (views h).Has p) : s.pool.Held p := .inl (hagrees.inUse hp)
  exact
    { inv := hagrees.inv.scribble hpage header words nextLink prevLink
      sees := fun h => ⟨(hagrees.sees h).id, (hagrees.sees h).bins, (hagrees.sees h).queues,
        fun p hp => by
          rw [hheader (hheld hp)]
          exact (hagrees.sees h).header p hp,
        fun p hp => by
          obtain ⟨hnext, hprev⟩ := hlinks (hheld (h := h) (.inr (.inr hp)))
          rw [hnext, hprev]
          exact (hagrees.sees h).links p hp⟩
      hands := hagrees.hands
      carried := fun h p hp => (hagrees.carried h p hp).congr
        (congrArg SlabHeader.ownPart (hheader (hheld (h := h) (.inr (.inr hp))))) (fun _ => rfl) rfl
      roster := hagrees.roster
      handles := hagrees.handles
      owned := hagrees.owned
      balanced := fun p hp => by
        rw [hagrees.inv.freeTotal_eq hp ⟨hheader hp, fun q hq => hwords hp hq⟩, hheader hp]
        exact hagrees.balanced p hp
      kept := fun a ha hsome => by
        obtain ⟨c, hclass⟩ := Option.isSome_iff_exists.mp hsome
        rw [hwords (hagrees.inv.slab_of_live (hagrees.mem_allocs ha) hclass).1 rfl]
        exact hagrees.kept a ha hsome }

end ClMalloc
