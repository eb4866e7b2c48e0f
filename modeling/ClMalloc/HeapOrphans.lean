import ClMalloc.HeapMoves

/-!
# Slabs pass from a heap that ends to one that adopts

A heap that ends leaves each of its slabs in one place: with the pool if all its slots are
free, else on the abandoned list of its class. A heap that adopts takes the whole list of a
class and leaves each slab in one place again: with the pool, as its active slab, or in one
of its queues.
-/

namespace ClMalloc

open Intrusive Placement Transition

variable {s s' : HeapSys} {live : List Allocation} {lists lists' : SlabPlace → List ℕ}
  {roster handles : List ℕ} {busy : Option ℕ} {h c slab : ℕ}

/-- The slabs a heap holds in a class, given its queues. -/
def HeapSys.holds (s : HeapSys) (queues : QueueHead → List ℕ) (h c : ℕ) : List ℕ :=
  ((s.heap h).bins c).toList ++ (queues ⟨h, .full, c⟩ ++ queues ⟨h, .part, c⟩)

/-- What the end of heap `h` does, given the queues at its start. -/
structure HeapSys.Dropped (h : ℕ) (live : List Allocation) (s s' : HeapSys)
    (queues : QueueHead → List ℕ) : Prop where
  pool : run (PagePool.giveUp fun p => (s.headers p).sizeClassIndex) s.pool
    (((List.range numClasses).flatMap (s.holds queues h)).map fun p => (p, s.allFree p)) =
    some s'.pool
  recycled : ∀ c, ∀ p ∈ s.holds queues h c, s.allFree p = true → p ∉ s'.pool.inUse ∧
    ∀ c', p ∉ s'.pool.abandoned c'
  abandoned : ∀ c, s'.pool.abandoned c =
    ((s.holds queues h c).filter fun p => !s.allFree p).reverse ++ s.pool.abandoned c
  drained : ∀ c, ∀ p ∈ s.holds queues h c, s.Merged s' p
  untouched : ∀ p, (∀ c, p ∉ s.holds queues h c) → s.SameSlab s' p
  empty : ∀ c, (s'.heap h).bins c = none ∧ ∀ queue, s'.links.head ⟨h, queue, c⟩ = none
  otherHeaps : ∀ h', h' ≠ h → s'.heap h' = s.heap h'
  otherQueues : ∀ head, head.heap ≠ h → DList s'.links (.head head) (queues head)
  live : s.Keeps s' live

/-- What an adoption of class `c` by heap `h` does, given the queues of the class at its start. -/
structure HeapSys.Adopted (h c : ℕ) (s s' : HeapSys) (fulls parts : List ℕ) (result : Option ℕ) :
    Prop where
  pool : run (PagePool.readopt c) (s.pool.adoptAll 0 c)
    ((s.pool.abandoned c).map fun p => (p, s.allFree p)) = some s'.pool
  recycled : ∀ p ∈ s.pool.abandoned c, s.allFree p = true → p ∉ s'.pool.inUse ∧
    ∀ c', p ∉ s'.pool.abandoned c'
  abandoned : ∀ c', s'.pool.abandoned c' = if c' = c then [] else s.pool.abandoned c'
  owned : ∀ p ∈ s.pool.abandoned c, (s'.headers p).heapId = (s.heap h).id
  active : (s'.heap h).bins c = ((s.pool.abandoned c).filter s.partFree).head?
  supplied : ∀ p, ((s.pool.abandoned c).filter s.partFree).head? = some p →
    ∃ ptr, result = some ptr ∧ s.Supplied s' p ptr
  drained : ∀ p ∈ s.pool.abandoned c, ((s.pool.abandoned c).filter s.partFree).head? ≠ some p →
    s.Merged s' p
  part : DList s'.links (.head ⟨h, .part, c⟩)
    (((s.pool.abandoned c).filter s.partFree).tail.reverse ++ parts)
  full : DList s'.links (.head ⟨h, .full, c⟩)
    (((s.pool.abandoned c).filter s.noneFree).reverse ++ fulls)
  untouched : ∀ p, p ∉ s.pool.abandoned c → s.SameSlab s' p
  none_iff : result = none ↔ ∀ p ∈ s.pool.abandoned c, s.noneFree p = true ∨ s.allFree p = true

/-- The abandoned lists after slabs were given up. -/
theorem giveUp_abandoned {cls : ℕ → ℕ} {pool pool' : PagePool} {slabs : List ℕ} {full : ℕ → Bool}
    (hrun : run (PagePool.giveUp cls) pool (slabs.map fun p => (p, full p)) = some pool') (c : ℕ) :
    pool'.abandoned c = (slabs.filter fun p => !full p && cls p == c).reverse ++
      pool.abandoned c := by
  induction slabs generalizing pool with
  | nil =>
    cases hrun
    rfl
  | cons slab slabs ih =>
    obtain ⟨pool₁, hstep, hrest⟩ := run_cons_eq_some.mp hrun
    rw [ih hrest]
    by_cases hfull : full slab = true
    · rw [PagePool.giveUp, if_pos hfull] at hstep
      rw [PagePool.cacheSlabToEnd_abandoned hstep, List.filter_cons_of_neg (by simp [hfull])]
    · rw [PagePool.giveUp, if_neg hfull, Option.some.injEq] at hstep
      have hlists : pool₁.abandoned c = if cls slab = c then slab :: pool.abandoned c
          else pool.abandoned c := by
        rw [← hstep]
        change Function.update pool.abandoned (cls slab) (slab :: pool.abandoned (cls slab)) c = _
        by_cases hc : cls slab = c
        · subst hc
          rw [Function.update_self, if_pos rfl]
        · rw [Function.update_of_ne (Ne.symm hc), if_neg hc]
      rw [hlists]
      by_cases hc : cls slab = c
      · rw [if_pos hc, List.filter_cons_of_pos (by simp [hfull, hc]), List.reverse_cons,
          List.append_assoc, List.singleton_append]
      · rw [if_neg hc, List.filter_cons_of_neg (by simp [hc])]

/-- The part of a list gathered by class that is of one class. -/
theorem filter_flatMap_class {classes : List ℕ} {f : ℕ → List ℕ} {cls : ℕ → ℕ} (keep : ℕ → Bool)
    (hnodup : classes.Nodup) (hcls : ∀ c' ∈ classes, ∀ p ∈ f c', cls p = c') (hc : c ∈ classes) :
    (classes.flatMap f).filter (fun p => keep p && cls p == c) = (f c).filter keep := by
  have hother {c' : ℕ} (hmem : c' ∈ classes) : (f c').filter (fun p => keep p && cls p == c) =
      if c' = c then (f c').filter keep else [] := by
    split
    case isTrue heq => exact List.filter_congr fun p hp => by simp [hcls c' hmem p hp, heq]
    case isFalse hne =>
      rw [List.filter_eq_nil_iff]
      intro p hp
      simp [hcls c' hmem p hp, hne]
  rw [List.filter_flatMap]
  induction classes with
  | nil => simp at hc
  | cons c' classes ih =>
    rw [List.nodup_cons] at hnodup
    rw [List.flatMap_cons, hother List.mem_cons_self]
    rcases List.mem_cons.mp hc with rfl | hin
    · have hrest : (classes.flatMap fun a => (f a).filter fun p => keep p && cls p == c) = [] := by
        rw [List.flatMap_eq_nil_iff]
        intro a ha
        rw [hother (List.mem_cons_of_mem _ ha), if_neg]
        rintro rfl
        exact hnodup.1 ha
      rw [if_pos rfl, hrest, List.append_nil]
    · have hne : c' ≠ c := by
        rintro rfl
        exact hnodup.1 hin
      rw [if_neg hne, List.nil_append]
      exact ih hnodup.2 (fun a ha => hcls a (List.mem_cons_of_mem _ ha)) hin
        fun ha => hother (List.mem_cons_of_mem _ ha)

/-- What a heap holds in a class is of that class. -/
theorem HeapInv.heldIn_belongs (hinv : HeapInv s live lists roster handles busy) {p : ℕ}
    (hp : p ∈ heldIn lists h c) :
    s.Belongs roster h c p := by
  obtain ⟨place, howner, hplace⟩ := mem_heldIn.mp hp
  exact hinv.belongs place h c howner p hplace

/-- What a heap holds is held in one of the classes. -/
theorem HeapInv.mem_heldBy (hinv : HeapInv s live lists roster handles busy) {p : ℕ} :
    p ∈ heldBy lists h ↔ ∃ c, p ∈ heldIn lists h c := by
  unfold heldBy
  rw [List.mem_flatMap]
  constructor
  · rintro ⟨c, -, hp⟩
    exact ⟨c, hp⟩
  · rintro ⟨c, hp⟩
    exact ⟨c, List.mem_range.mpr (hinv.heldIn_belongs hp).range, hp⟩

/-- The abandoned lists after a heap ended. -/
theorem DropResult.abandoned_eq (hinv : HeapInv s live lists roster handles busy)
    (hdropped : DropResult (fun p => (s.headers p).sizeClassIndex) live s s' lists lists'
      (heldBy lists h))
    (c : ℕ) :
    s'.pool.abandoned c = ((heldIn lists h c).filter fun p => !s.allFree p).reverse ++
      s.pool.abandoned c := by
  have hcls (c' : ℕ) (p : ℕ) (hp : p ∈ heldIn lists h c') : (s.headers p).sizeClassIndex = c' :=
    (hinv.heldIn_belongs hp).classIdx
  rw [giveUp_abandoned hdropped.sweep.pool c]
  by_cases hc : c ∈ List.range numClasses
  · rw [heldBy, filter_flatMap_class (fun p => !s.allFree p) List.nodup_range
      (fun c' _ => hcls c') hc]
  · have hnone : heldIn lists h c = [] := by
      rw [List.eq_nil_iff_forall_not_mem]
      exact fun p hp => hc (List.mem_range.mpr (hinv.heldIn_belongs hp).range)
    have hfilter : ((heldBy lists h).filter fun p => !s.allFree p &&
        (s.headers p).sizeClassIndex == c) = [] := by
      rw [List.filter_eq_nil_iff]
      intro p hp
      obtain ⟨c', hp'⟩ := hinv.mem_heldBy.mp hp
      have hne : c' ≠ c := by
        rintro rfl
        simp [hnone] at hp'
      simp [hcls c' p hp', hne]
    rw [hfilter, hnone]
    rfl

/-- The end of a heap leaves each of its slabs in one place. -/
theorem Ready.dropped (hready : Ready s live lists handles handles) (h : ℕ) :
    ∃ s', s.dropHeap h = .ok s' ∧ s.Dropped h live s' fun head => lists (.queue head) := by
  have hinv := hready.inv
  have hholds (c : ℕ) : s.holds (fun head => lists (.queue head)) h c = heldIn lists h c := by
    rw [HeapSys.holds, heldIn, hinv.bins]
  obtain ⟨s', lists', hdrop, hready', hdropped⟩ := hready.dropHeap h
  have hinv' := hready'.inv
  have hgone (c : ℕ) {place : SlabPlace} (howner : place.owner = some (h, c)) :
      lists' place = [] := by
    rw [List.eq_nil_iff_forall_not_mem]
    intro p hp
    rw [hdropped.left, List.mem_filter, decide_eq_true_eq] at hp
    exact hp.2 (hinv.mem_heldBy.mpr ⟨c, mem_heldIn.mpr ⟨place, howner, hp.1⟩⟩)
  have hkept {h' c : ℕ} (hne : h' ≠ h) {place : SlabPlace} (howner : place.owner = some (h', c)) :
      lists' place = lists place := by
    refine hdropped.left_eq fun p hp hin => hne ?_
    obtain ⟨c', hp'⟩ := hinv.mem_heldBy.mp hin
    obtain ⟨place', howner', hplace'⟩ := mem_heldIn.mp hp'
    rw [← hinv.separate.unique hp hplace', howner] at howner'
    simpa using congrArg Prod.fst (Option.some.inj howner')
  have hseen {c p : ℕ} (hp : p ∈ heldIn lists h c) : p ∈ heldBy lists h :=
    hinv.mem_heldBy.mpr ⟨c, hp⟩
  refine ⟨s', hdrop, ?_⟩
  constructor
  case pool =>
    rw [List.flatMap_congr fun c _ => hholds c]
    exact hdropped.sweep.pool
  case recycled =>
    intro c p hp hall
    rw [hholds] at hp
    refine ⟨fun hin => ?_, fun c' hin => ?_⟩
    · obtain ⟨place, hplace⟩ := (hinv'.inUse p).mp hin
      rw [hdropped.left, List.mem_filter, decide_eq_true_eq] at hplace
      exact hplace.2 (hseen hp)
    · obtain ⟨place, -, hplace⟩ := mem_heldIn.mp hp
      rw [hdropped.abandoned_eq hinv, List.mem_append, List.mem_reverse, List.mem_filter] at hin
      rcases hin with hin | hin
      · simp [hall] at hin
      · exact hinv.notMem_abandoned hplace c' hin
  case abandoned =>
    intro c
    rw [hholds]
    exact hdropped.abandoned_eq hinv c
  case drained =>
    intro c p hp
    rw [hholds] at hp
    exact hdropped.sweep.merged p (hseen hp) (by simp)
  case untouched =>
    intro p hp
    refine hdropped.sweep.same p fun hin => ?_
    obtain ⟨c, hp'⟩ := hinv.mem_heldBy.mp hin
    exact hp c (by rw [hholds]; exact hp')
  case empty =>
    intro c
    refine ⟨?_, fun queue => ?_⟩
    · rw [hinv'.bins_eq_head?, hgone c rfl, List.head?_nil]
    · have hlinked : DList s'.links _ (lists' (.queue ⟨h, queue, c⟩)) := hinv'.linked ⟨h, queue, c⟩
      rw [hgone c rfl] at hlinked
      exact hlinked
  case otherHeaps =>
    intro h' hne
    have hbins : (s'.heap h').bins = (s.heap h').bins := by
      funext c
      rw [hinv'.bins_eq_head?, hkept hne rfl, ← hinv.bins_eq_head?]
    have hid := hdropped.sweep.ids h'
    have hmetrics := hdropped.sweep.metrics h'
    cases hs : s.heap h'
    cases hs' : s'.heap h'
    rw [hs, hs'] at hbins hid hmetrics
    simp only at hbins hid hmetrics
    rw [hbins, hid, hmetrics]
  case otherQueues =>
    intro head hne
    have hlinked : DList s'.links _ (lists' (.queue head)) := hinv'.linked head
    rwa [hkept (c := head.classIdx) hne rfl] at hlinked
  case live => exact hdropped.sweep.keeps hinv

/-- Adopting slabs leaves the abandoned lists as `adopt_all` left them. -/
theorem readopt_abandoned {pool pool' : PagePool} {slabs : List (ℕ × Bool)}
    (hrun : run (PagePool.readopt c) pool slabs = some pool') :
    pool'.abandoned = pool.abandoned := by
  refine run_invariant (I := fun p => p.abandoned = pool.abandoned)
    (fun p slab p' hp hstep => ?_) rfl hrun
  unfold PagePool.readopt PagePool.recycle at hstep
  split at hstep
  · rw [PagePool.cacheSlabToEnd_abandoned hstep]
    exact hp
  · cases hstep
    exact hp

/-- The places with an owner after an adoption: the heap's own three, and those that are as
before. -/
theorem AdoptResult.mem_cases {seen used : List ℕ} {result result' : Option ℕ}
    (hadopted : AdoptResult h c live s s' lists lists' seen used result result') {place : SlabPlace}
    (hplace : place ≠ .hand) {p : ℕ} (hp : p ∈ lists' place) :
    (∃ place', place' ≠ .hand ∧ p ∈ lists place') ∨ p ∈ seen ∧
      (s.partFree p = true ∨ s.noneFree p = true) := by
  have hfiled {p : ℕ} (hp : p ∈ lists (.bin h c) ++ seen.filter s.partFree) :
      (∃ place', place' ≠ .hand ∧ p ∈ lists place') ∨ p ∈ seen ∧
        (s.partFree p = true ∨ s.noneFree p = true) := by
    rcases List.mem_append.mp hp with hp | hp
    · exact .inl ⟨.bin h c, by simp, hp⟩
    · exact .inr ⟨List.mem_of_mem_filter hp, .inl (List.mem_filter.mp hp).2⟩
  by_cases howner : place.owner = some (h, c)
  · obtain ⟨place', howner', hp'⟩ : ∃ place : SlabPlace, place.owner = some (h, c) ∧
      p ∈ lists' place :=
      ⟨place, howner, hp⟩
    have hheld := mem_heldIn.mpr ⟨place', howner', hp'⟩
    unfold heldIn at hheld
    rw [hadopted.filed.active, hadopted.filed.part, hadopted.full] at hheld
    simp only [List.mem_append, List.mem_reverse] at hheld
    rcases hheld with hin | (hin | hin) | hin | hin
    · exact hfiled (List.mem_of_mem_take hin)
    · exact .inr ⟨List.mem_of_mem_filter hin, .inr (List.mem_filter.mp hin).2⟩
    · exact .inl ⟨_, by simp, hin⟩
    · exact hfiled (List.mem_of_mem_drop hin)
    · exact .inl ⟨_, by simp, hin⟩
  · have howned : place.owner ≠ none := by
      cases place with
      | bin => simp [SlabPlace.owner]
      | queue => simp [SlabPlace.owner]
      | hand => exact absurd rfl hplace
    rw [hadopted.filed.others place howned howner] at hp
    exact .inl ⟨place, hplace, hp⟩

/-- An adoption behind an empty bin leaves each abandoned slab of the class in one place. -/
theorem Ready.adopted (hready : Ready s live lists roster handles) (hheap : h ∈ roster)
    (hrange : c < numClasses) (hempty : (s.heap h).bins c = none) :
    ∃ s' result, s.tryAdopt h c = .ok (s', result) ∧
      s.Adopted h c s' (lists (.queue ⟨h, .full, c⟩)) (lists (.queue ⟨h, .part, c⟩)) result := by
  have hinv := hready.inv
  obtain ⟨hsize, hlayout⟩ := classLayout_spec hrange
  obtain ⟨s', result, lists', used, hadopt, hready', hresult⟩ :=
    hready.tryAdopt hheap hrange hlayout hsize hempty
  have hinv' := hready'.inv
  have hnoBin : withHand lists (s.pool.abandoned c) (.bin h c) = [] := by
    rw [withHand_bin, hinv.bins, hempty]
    rfl
  have hheld {p : ℕ} (hp : p ∈ s.pool.abandoned c) : s.pool.Held p := .inr ⟨c, hp⟩
  have habandoned (c' : ℕ) : s'.pool.abandoned c' = if c' = c then [] else s.pool.abandoned c' := by
    rw [readopt_abandoned hresult.sweep.pool]
    change Function.update s.pool.abandoned c [] c' = _
    by_cases hc : c' = c
    · subst hc
      simp
    · simp [hc]
  -- The slabs do not depend on the pool, so those of the state after `adopt_all` are those of `s`.
  have hsame (p : ℕ) : s.SameSlab { s with pool := s.pool.adoptAll 0 c } p := ⟨rfl, fun _ _ => rfl⟩
  have hpart : HeapSys.partFree { s with pool := s.pool.adoptAll 0 c } = s.partFree := rfl
  have hactive := hresult.filed.active
  have hqueue := hresult.filed.part
  rw [hnoBin, List.nil_append, hpart] at hactive hqueue
  refine ⟨s', result, hadopt, ?_⟩
  constructor
  case pool => exact hresult.sweep.pool
  case recycled =>
    intro p hp hall
    refine ⟨fun hin => ?_, fun c' hin => ?_⟩
    · obtain ⟨place, hplace⟩ := (hinv'.inUse p).mp hin
      have hhand : place ≠ .hand := by
        rintro rfl
        simp [hready'.hand] at hplace
      rcases hresult.mem_cases hhand hplace with ⟨place', hhand', hold⟩ | ⟨-, hkind⟩
      · rw [withHand, Function.update_of_ne hhand'] at hold
        exact hinv.notMem_abandoned hold c hp
      · rcases hinv.kinds (hheld hp) with hkinds | hkinds | hkinds
        · rcases hkind with hkind | hkind
          · exact absurd (hkinds.2.1.symm.trans hkind) (by simp)
          · exact absurd (hkinds.2.2.symm.trans hkind) (by simp)
        · simp [hkinds.1] at hall
        · simp [hkinds.1] at hall
    · rw [habandoned] at hin
      split at hin
      · simp at hin
      · rename_i hc
        exact hc ((hinv.orphans c' p hin).classIdx.symm.trans (hinv.orphans c p hp).classIdx)
  case abandoned => exact habandoned
  case owned => exact hresult.owned
  case active =>
    rw [hinv'.bins_eq_head?, hactive, List.head?_take, if_neg one_ne_zero]
  case supplied =>
    intro p hp
    cases hresult.handed with
    | kept hkept =>
      have hnil := hkept.resolve_left fun hne => hne rfl
      rw [hpart] at hnil
      simp [hnil] at hp
    | supplied hfirst hslot =>
      rename_i slab ptr
      rw [hpart, hp, Option.some.injEq] at hfirst
      subst hfirst
      have hmem := List.mem_of_mem_filter (List.mem_of_head? hp)
      exact ⟨ptr, rfl, hinv.supplied_of_same (hheld hmem) (hsame p) hslot⟩
  case drained =>
    intro p hp hne
    refine hinv.merged_of_same (hheld hp) (hsame p) (hresult.sweep.merged p hp fun hin => hne ?_)
    cases hresult.handed with
    | kept => simp at hin
    | supplied hfirst =>
      rw [List.mem_singleton.mp hin]
      exact hfirst
  case part =>
    have hlinked : DList s'.links _ (lists' (.queue ⟨h, .part, c⟩)) := hinv'.linked ⟨h, .part, c⟩
    rwa [hqueue, withHand_queue, List.drop_one] at hlinked
  case full =>
    have hlinked : DList s'.links _ (lists' (.queue ⟨h, .full, c⟩)) := hinv'.linked ⟨h, .full, c⟩
    rwa [hresult.full, withHand_queue] at hlinked
  case untouched => exact fun p hp => (hsame p).trans (hresult.sweep.same p hp)
  case none_iff =>
    rw [← hinv.filter_partFree_eq_nil_iff fun _ => hheld]
    cases hresult.handed with
    | kept hkept => exact ⟨fun _ => hkept.resolve_left fun hne => hne rfl, fun _ => rfl⟩
    | supplied hfirst =>
      rw [hpart] at hfirst
      constructor
      · intro hnone
        simp at hnone
      · intro hnil
        simp [hnil] at hfirst

variable {r : HeapRun} {headers : ℕ → SlabHeader} {next : ℕ → Option ℕ} {links : Links ℕ QueueHead}
  {labels : List HeapLabel}

/-- In every reachable state the end of a heap leaves each slab it held in one place, and an
adoption, which a call of `alloc` makes behind an empty bin, leaves each abandoned slab of its class
in one place. -/
theorem slabs_pass_between_heaps
    (hrun : run heapStep (HeapRun.new headers next links) labels = some r) :
    (∀ h ∈ r.handles, ∃ queues sys, (∀ head, DList r.sys.links (.head head) (queues head)) ∧
      r.sys.dropHeap h = .ok sys ∧ r.sys.Dropped h r.live sys queues) ∧
    ∀ h ∈ r.handles, ∀ c < numClasses, ∀ s, AllocPoint h c r.sys s → (s.heap h).bins c = none →
      ∃ fulls parts s' result, DList s.links (.head ⟨h, .full, c⟩) fulls ∧
        DList s.links (.head ⟨h, .part, c⟩) parts ∧
        s.tryAdopt h c = .ok (s', result) ∧ s.Adopted h c s' fulls parts result := by
  obtain ⟨lists, hready⟩ := heapRun_sound hrun
  constructor
  · intro h _
    obtain ⟨sys, hdrop, hdropped⟩ := hready.dropped h
    exact ⟨_, sys, hready.inv.linked, hdrop, hdropped⟩
  · intro h hheap c hc s hpoint hempty
    obtain ⟨lists', hready'⟩ := hready.allocPoint hpoint
    obtain ⟨s', result, hadopt, hadopted⟩ := hready'.adopted hheap hc hempty
    exact ⟨_, _, s', result, hready'.inv.linked _, hready'.inv.linked _, hadopt, hadopted⟩

/-- Heap 1 ends with two slabs, one of which has a slot pending; heap 2 adopts them and is served
from that slot. -/
theorem slabs_pass_between_heaps_abandonRun : ∃ r r' queues sys fulls parts s',
    run heapStep emptyHeaps abandonRun.dropLast = some r ∧
      run heapStep emptyHeaps abandonRun = some r' ∧
      r.sys.dropHeap 1 = .ok sys ∧ r.sys.Dropped 1 r.live sys queues ∧
      r'.sys.pool.abandoned 45 = [0x1000000, 0x1010000] ∧
        r'.sys.tryAdopt 2 45 = .ok (s', some 0x1005000) ∧
          r'.sys.Adopted 2 45 s' fulls parts (some 0x1005000) := by
  have hcheck : ((run heapStep emptyHeaps abandonRun.dropLast).bind fun r =>
      (run heapStep emptyHeaps abandonRun).map
      fun r' => decide (1 ∈ r.handles ∧ 2 ∈ r'.handles ∧ (r'.sys.heap 2).bins 45 = none ∧
        r'.sys.pool.abandoned 45 = [0x1000000, 0x1010000] ∧
          returned (r'.sys.tryAdopt 2 45) = some 0x1005000)) = some true := by decide +kernel
  obtain ⟨r, hrun, hr⟩ := Option.bind_eq_some_iff.mp hcheck
  obtain ⟨r', hrun', hr'⟩ := Option.map_eq_some_iff.mp hr
  obtain ⟨hheap, hheap', hempty, habandoned, hptr⟩ := of_decide_eq_true hr'
  obtain ⟨s₁, hadopt₁⟩ := exists_of_returned hptr
  obtain ⟨queues, sys, -, hdrop, hdropped⟩ := (slabs_pass_between_heaps hrun).1 1 hheap
  obtain ⟨fulls, parts, s', result, -, -, hadopt, hadopted⟩ :=
    (slabs_pass_between_heaps hrun').2 2 hheap' 45 (by decide) _ .start hempty
  have hsame := hadopt₁.symm.trans hadopt
  cases hsame
  exact ⟨r, r', queues, sys, fulls, parts, s₁, hrun, hrun', hdrop, hdropped, habandoned,
    hadopt, hadopted⟩

end ClMalloc
