import ClMalloc.HeapDrop

/-!
# The start of a heap, and free pages

A new heap gets an id no slab carries. Pages that hold no slab may be written by anyone.
-/

namespace ClMalloc

open Intrusive Placement

variable {s s' : HeapSys} {live : List Allocation} {lists : SlabPlace → List ℕ}
  {roster handles : List ℕ} {busy : Option ℕ} {h c slab : ℕ}

/-- A heap that is not on the roster has no slab in its places. -/
theorem HeapInv.place_nil (hinv : HeapInv s live lists roster handles busy) (hgone : h ∉ roster)
    {place : SlabPlace} (howner : place.owner = some (h, c)) : lists place = [] :=
  List.eq_nil_iff_forall_not_mem.mpr fun p hp => hgone (hinv.belongs place h c howner p hp).heap

/-- The new heap has an id no slab carries. -/
theorem HeapInv.newHeap (hinv : HeapInv s live lists roster handles busy) (hnew : h ∉ roster) :
    HeapInv (s.newHeap h) live lists (h :: roster) (h :: handles) busy := by
  have hheap {h' : ℕ} (hh' : h' ∈ roster) : (s.newHeap h).heap h' = s.heap h' := by
    refine Function.update_of_ne ?_ _ _
    rintro rfl
    exact hnew hh'
  have hself : ((s.newHeap h).heap h).id = s.nextHeapId := by simp [HeapSys.newHeap]
  exact
    { hinv with
      bins := fun h' c => by
        by_cases hh' : h' = h
        · subst hh'
          rw [hinv.place_nil hnew (show SlabPlace.owner (.bin h' c) = _ from rfl)]
          simp [HeapSys.newHeap]
        · rw [hinv.bins]
          simp [HeapSys.newHeap, hh']
      linked := fun head => by
        by_cases hhead : head.heap = h
        · change DList _ _ (lists (.queue head))
          rw [hinv.place_nil hnew (show (SlabPlace.queue head).owner = some (h, head.classIdx) by
            simp [SlabPlace.owner, hhead])]
          simp [HeapSys.newHeap, Links.read, hhead]
        · exact (hinv.linked head).congr (by simp [HeapSys.newHeap, Links.read, hhead]) fun _ _ =>
            ⟨rfl, rfl⟩
      belongs := fun place h' c howner p hp => by
        have hbelongs := hinv.belongs place h' c howner p hp
        exact ⟨List.mem_cons_of_mem _ hbelongs.heap, hbelongs.range, hbelongs.classIdx,
          by rw [hheap hbelongs.heap]; exact hbelongs.heapId⟩
      orphans := fun c p hp => by
        have horphan := hinv.orphans c p hp
        refine ⟨horphan.range, horphan.classIdx, horphan.old.trans (Nat.lt_succ_self _),
          fun h' hh' => ?_⟩
        rcases List.mem_cons.mp hh' with rfl | hin
        · rw [hself]
          exact horphan.old.ne
        · rw [hheap (hinv.alive h' hin)]
          exact horphan.noHeap h' hin
      ids := fun h' hh' => by
        change _ < s.nextHeapId + 1
        rcases List.mem_cons.mp hh' with rfl | hin
        · rw [hself]
          exact Nat.lt_succ_self _
        · rw [hheap hin]
          exact (hinv.ids h' hin).trans (Nat.lt_succ_self _)
      idsDiffer := fun h₁ hh₁ h₂ hh₂ heq => by
        rcases List.mem_cons.mp hh₁ with rfl | hin₁
        · rcases List.mem_cons.mp hh₂ with rfl | hin₂
          · rfl
          · rw [hself, hheap hin₂] at heq
            exact absurd heq (hinv.ids h₂ hin₂).ne'
        · rw [hheap hin₁] at heq
          rcases List.mem_cons.mp hh₂ with rfl | hin₂
          · rw [hself] at heq
            exact absurd heq (hinv.ids h₁ hin₁).ne
          · rw [hheap hin₂] at heq
            exact hinv.idsDiffer h₁ hin₁ h₂ hin₂ heq
      alive := fun h' hh' => by
        rcases List.mem_cons.mp hh' with rfl | hin
        · exact List.mem_cons_self
        · exact List.mem_cons_of_mem _ (hinv.alive h' hin)
      aliveOnce := List.nodup_cons.mpr ⟨fun hin => hnew (hinv.alive h hin), hinv.aliveOnce⟩
      serves := fun a ha => (hinv.serves a ha).congr (fun _ hp _ => ⟨hp, rfl⟩) fun hlarge =>
        hlarge }

/-- A new heap joins the live ones. -/
theorem Ready.newHeap (hready : Ready s live lists handles handles) (hnew : h ∉ handles) :
    Ready (s.newHeap h) live lists (h :: handles) (h :: handles) :=
  ⟨hready.inv.newHeap hnew, hready.hand⟩

/-- Writes to pages that hold no slab do not matter. -/
theorem HeapInv.scribble (hinv : HeapInv s live lists roster handles none) {page : ℕ}
    (hpage : ¬s.pool.Held page) (header : SlabHeader) (words : ℕ → Option ℕ) (nextLink : Option ℕ)
    (prevLink : Option (Cell ℕ QueueHead)) :
    HeapInv (s.scribble page header words nextLink prevLink) live lists roster handles none := by
  have hneList {place : SlabPlace} {p : ℕ} (hp : p ∈ lists place) : p ≠ page := by
    rintro rfl
    exact hpage (hinv.held hp)
  have hneOld {c p : ℕ} (hp : p ∈ s.pool.abandoned c) : p ≠ page := by
    rintro rfl
    exact hpage (.inr ⟨c, hp⟩)
  have hheader {p : ℕ} (hp : p ≠ page) :
      (s.scribble page header words nextLink prevLink).headers p = s.headers p :=
        Function.update_of_ne hp _ _
  have hlinks {p : ℕ} (hp : p ≠ page) :
      (s.scribble page header words nextLink prevLink).links.next p = s.links.next p ∧
        (s.scribble page header words nextLink prevLink).links.prev p = s.links.prev p := by
    simp [HeapSys.scribble, Links.setNext, Links.setPrev, Links.write, hp]
  exact
    { hinv with
      linked := hinv.linked.congr rfl fun head p hp => hlinks (hneList hp)
      binLinks := fun h c p hp => by
        rw [(hlinks (hneList hp)).1, (hlinks (hneList hp)).2]
        exact hinv.binLinks h c p hp
      abandoned := fun c => (hinv.abandoned c).congr fun p hp => (hlinks (hneOld hp)).1
      belongs := fun place h c howner p hp =>
        (hinv.belongs place h c howner p hp).congr (hheader (hneList hp)) rfl
      counts := fun head p hp hbusy => by
        rw [hheader (hneList hp)]
        exact hinv.counts head p hp hbusy
      orphans := fun c p hp =>
        (hinv.orphans c p hp).congr (hheader (hneOld hp)) le_rfl (hinv.orphans c p hp).noHeap
      slabs := fun p hp => by
        have hne : p ≠ page := by
          rintro rfl
          exact hpage hp
        rw [hheader hne]
        exact (hinv.slabs p hp).other (hinv.quiet.aligned hp).1 hne
          (fun _ hq => if_neg hq) fun _ ha _ => ha
      serves := fun a ha => (hinv.serves a ha).congr (fun p hp _ => by
        refine ⟨hp, congrArg SlabHeader.sizeClassIndex (hheader ?_)⟩
        rintro rfl
        exact hpage hp) fun hlarge => hlarge }

/-- Between operations too. -/
theorem Ready.scribble (hready : Ready s live lists roster handles) {page : ℕ}
    (hpage : ¬s.pool.Held page) (header : SlabHeader) (words : ℕ → Option ℕ) (nextLink : Option ℕ)
    (prevLink : Option (Cell ℕ QueueHead)) :
    Ready (s.scribble page header words nextLink prevLink) live lists roster handles :=
  ⟨hready.inv.scribble hpage header words nextLink prevLink, hready.hand⟩

end ClMalloc
