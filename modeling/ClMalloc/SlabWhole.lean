import ClMalloc.SlabInvariant

/-!
# One slab under whole operations

Between whole operations a slot is in use, on one of the two free lists, or not carved yet.
`SlabOk` says that of a slab, and that every live allocation served from its page is one of
the slots in use. The operations of the slab keep it, with the count of available slots
going up or down by what they move.
-/

namespace ClMalloc

open Intrusive Placement

/-- A pointer that was handed out and not taken back, with the layout it was requested with. -/
structure Allocation where
  ptr : ℕ
  layout : Layout
  deriving DecidableEq

/-- The allocation has a size class and lies in the page. -/
def Allocation.ServedFrom (a : Allocation) (page : ℕ) : Prop :=
  (classIndex a.layout).isSome = true ∧ slabMask a.ptr = page

/-- The slots of the slab are in one place each, and live allocations in slots that are in use. -/
def SlabOk (next : ℕ → Option ℕ) (live : List Allocation) (base : ℕ) (h : SlabHeader) : Prop :=
  ∃ lists place, SlabInv base h.sizeClassIndex h next lists place ∧ lists .drain = [] ∧
    ∀ a ∈ live, a.ServedFrom base → a.ptr ∈ lists .live

variable {base classIdx slot : ℕ} {h h' : SlabHeader} {next next' : ℕ → Option ℕ}
  {live live' : List Allocation} {lists : SlotPlace → List ℕ} {place : ℕ → Option SlotPlace}

/-- A slot lies behind the header, inside the page, and masks to its base. -/
theorem slot_geometry (hbase : slabSize ∣ base)
    (hslot : slot ∈ slabSlots base (classSize classIdx)) :
    ∃ i < slotCountOf (classSize classIdx), slot = slotAddr base (classSize classIdx) i ∧
      base + 72 ≤ slot ∧ slot + classSize classIdx ≤ base + slabSize ∧ slabMask slot = base := by
  obtain ⟨hmin, -, hoff, -, -, hfit⟩ := slab_geometry classIdx
  obtain ⟨i, hi, rfl⟩ := List.mem_map.mp hslot
  rw [List.mem_range] at hi
  have hend : (i + 1) * classSize classIdx ≤
      slotCountOf (classSize classIdx) * classSize classIdx :=
    Nat.mul_le_mul_right _ hi
  rw [Nat.add_mul, Nat.one_mul] at hend
  have hlow : base + 72 ≤ slotAddr base (classSize classIdx) i := by
    unfold slotAddr
    omega
  have hhigh : slotAddr base (classSize classIdx) i + classSize classIdx ≤ base + slabSize := by
    unfold slotAddr slabSize
    omega
  refine ⟨i, hi, rfl, hlow, hhigh, ?_⟩
  unfold slabMask
  unfold slabSize at hbase hhigh ⊢
  omega

/-- The slots on the local list, in order. -/
def SlabHeader.localSlots (h : SlabHeader) (next : ℕ → Option ℕ) : List ℕ :=
  walk next h.slotCount h.localList.head

/-- The slots on the remote stack, in order. -/
def SlabHeader.remoteSlots (h : SlabHeader) (next : ℕ → Option ℕ) : List ℕ :=
  walk next h.slotCount h.remoteHead

/-- The walks over the two free lists give the slots in these places. -/
theorem SlabInv.walks (hinv : SlabInv base classIdx h next lists place) :
    h.localSlots next = lists .localList ∧ h.remoteSlots next = lists .remote := by
  have hlocal := hinv.freeCount_eq.2
  have hremote := hinv.count_le (hinv.placed.nodup .remote) fun p hp =>
    ⟨.remote, by simp, by simp, hp⟩
  have hlen := hinv.localLen
  constructor
  · apply hinv.localChain.walk_eq
    rw [hinv.slotCount]
    omega
  · apply hinv.remoteChain.walk_eq
    rw [hinv.slotCount]
    omega

/-- The drain loop pushes the slots of its chain to the local list one by one. -/
theorem drainLoop_spec {s : SlabHeader} {fuel : ℕ} {cursor : Option ℕ}
    (hinv : SlabInv base classIdx s next lists place) (hchain : Chain next cursor (lists .drain))
    (hfuel : (lists .drain).length ≤ fuel) :
    ∃ next' list lists' place', drainLoop fuel next s.localList cursor = some (next', list) ∧
      SlabInv base classIdx { s with localList := list } next' lists' place' ∧ lists' .drain = [] ∧
      lists' .localList = (lists .drain).reverse ++ lists .localList ∧
      (∀ tag, tag ≠ .drain → tag ≠ .localList → lists' tag = lists tag) ∧
      SlabHeader.freeCount { s with localList := list } = s.freeCount + (lists .drain).length ∧
      ∀ p, p ∉ lists .drain → next' p = next p := by
  induction fuel generalizing s next lists place cursor with
  | zero =>
    have hnil : lists .drain = [] := List.length_eq_zero_iff.mp (Nat.le_zero.mp hfuel)
    rw [hnil] at hchain
    cases cursor with
    | none =>
      exact ⟨next, s.localList, lists, place, rfl, hinv, hnil, by simp [hnil],
        fun _ _ _ => rfl, by simp [hnil], fun _ _ => rfl⟩
    | some slot => simp at hchain
  | succ fuel ih =>
    cases cursor with
    | none =>
      have hnil := hchain.eq_nil
      exact ⟨next, s.localList, lists, place, rfl, hinv, hnil, by simp [hnil],
        fun _ _ _ => rfl, by simp [hnil], fun _ _ => rfl⟩
    | some slot =>
      obtain ⟨rest, hlist, hrest⟩ := hchain.exists_cons
      have hslot : slot ∈ lists .drain := by simp [hlist]
      have hnodup : slot ∉ rest := by
        have := hinv.placed.nodup .drain
        rw [hlist, List.nodup_cons] at this
        exact this.1
      obtain ⟨hpushed, hcount⟩ := hinv.pushLocal hslot ⟨by simp, by simp, by simp⟩
      have hdrain : transfer lists .drain .localList slot .drain = rest := by
        rw [transfer_src (by simp), hlist, List.erase_cons_head]
      obtain ⟨next', list, lists', place', hloop, hinv', hnil, hlocal, hothers, htotal, hframe⟩ :=
        ih hpushed (by rw [hdrain]; exact hrest.update_of_notMem hnodup _)
          (by rw [hdrain]; rw [hlist, List.length_cons] at hfuel; omega)
      refine ⟨next', list, lists', place', hloop, hinv', hnil, ?_, fun tag hdr hlc => ?_,
        ?_, fun p hp => ?_⟩
      · rw [hlocal, hdrain, transfer_dst, hlist]
        simp
      · rw [hothers tag hdr hlc, transfer_of_ne hdr hlc]
      · rw [hdrain] at htotal
        rw [hlist, List.length_cons]
        calc SlabHeader.freeCount { s with localList := list }
            = (s.deallocLocal slot).freeCount + rest.length := htotal
          _ = s.freeCount + (rest.length + 1) := by omega
      · rw [hlist, List.mem_cons, not_or] at hp
        rw [hframe p (by rw [hdrain]; exact hp.2), Function.update_of_ne hp.1]

/-- `drain_remote` ends: the remote stack is empty, and its slots are on top of the local list in
reverse. -/
theorem SlabOk.drainRemote (hok : SlabOk next live base h) :
    ∃ next' h' list, h.drainRemote next = some (next', h') ∧ h' = { h with
      remoteHead := none, localList := list } ∧
      SlabOk next' live base h' ∧ h'.localSlots next' = (h.remoteSlots next).reverse ++
        h.localSlots next ∧
      h'.freeCount = h.freeCount + (h.remoteSlots next).length ∧
      (∀ p, p ∉ h.remoteSlots next → next' p = next p) := by
  obtain ⟨lists, place, hinv, hdrain, hlive⟩ := hok
  have hswap := hinv.swapRemote
  have hremote : (Function.update (Function.update lists .remote []) .drain
      (lists .remote ++ lists .drain)) .drain =
      lists .remote := by rw [Function.update_self, hdrain, List.append_nil]
  have hfuel : (Function.update (Function.update lists .remote []) .drain
      (lists .remote ++ lists .drain) .drain).length ≤ h.slotCount := by
    rw [hremote]
    have hle := hinv.count_le (hinv.placed.nodup .remote) fun p hp =>
      ⟨.remote, by simp, by simp, hp⟩
    rw [hinv.slotCount]
    omega
  obtain ⟨next', list, lists', place', hloop, hinv', hnil, hlocal, hothers, hcount, hframe⟩ :=
    drainLoop_spec hswap (by rw [hremote]; exact hinv.remoteChain) hfuel
  rw [hremote] at hlocal hcount hframe
  obtain ⟨hwalkLocal, hwalkRemote⟩ := hinv.walks
  rw [hwalkLocal, hwalkRemote]
  refine ⟨next', _, list, ?_, rfl, ⟨lists', place', hinv', hnil, fun a ha hserved => ?_⟩,
    ?_, hcount, hframe⟩
  · rw [SlabHeader.drainRemote]
    simp only at hloop
    rw [hloop]
  · rw [hothers .live (by simp) (by simp)]
    simpa using hlive a ha hserved
  · rw [hinv'.walks.1, hlocal]
    simp

/-- The slots on the remote stack are slots of the page that no live allocation is in. -/
theorem SlabOk.mem_remoteSlots (hok : SlabOk next live base h) {p : ℕ}
    (hp : p ∈ h.remoteSlots next) :
    p ∈ slabSlots base (classSize h.sizeClassIndex) ∧
      ∀ a ∈ live, a.ServedFrom base → a.ptr ≠ p := by
  obtain ⟨lists, place, hinv, -, hlive⟩ := hok
  rw [hinv.walks.2] at hp
  refine ⟨hinv.mem_slots hp, ?_⟩
  rintro a ha hserved rfl
  have := hinv.placed.unique (hlive a ha hserved) hp
  simp at this

/-- A slab has slots. -/
theorem SlabOk.slotCount_pos (hok : SlabOk next live base h) : 0 < h.slotCount := by
  obtain ⟨lists, place, hinv, -, -⟩ := hok
  rw [hinv.slotCount]
  exact (slab_geometry _).2.2.2.2.1

/-- The counts of available slots stay within the slab. -/
theorem SlabOk.freeCount_le (hok : SlabOk next live base h) : h.freeCount ≤ h.slotCount := by
  obtain ⟨lists, place, hinv, -, -⟩ := hok
  have := hinv.freeCount_eq
  rw [hinv.slotCount]
  omega

/-- A slab with a live allocation has fewer slots available than it has slots. -/
theorem SlabOk.freeCount_lt (hok : SlabOk next live base h) {a : Allocation} (ha : a ∈ live)
    (hserved : a.ServedFrom base) : h.freeCount < h.slotCount := by
  obtain ⟨lists, place, hinv, -, hlive⟩ := hok
  rw [hinv.slotCount]
  exact hinv.freeCount_lt (hlive a ha hserved) (by simp) (by simp)

/-- A fully free slab serves no live allocation. -/
theorem SlabOk.not_served (hok : SlabOk next live base h) (hfree : h.isFullyFree = true)
    {a : Allocation} (ha : a ∈ live) : ¬a.ServedFrom base := by
  intro hserved
  have hlt := hok.freeCount_lt ha hserved
  rw [SlabHeader.isFullyFree, beq_iff_eq] at hfree
  omega

/-- The lists of a slab are in its own page. -/
theorem SlabInv.congr_page {classIdx : ℕ} {lists : SlotPlace → List ℕ}
    {place : ℕ → Option SlotPlace} (hinv : SlabInv base classIdx h next lists place)
    (hbase : slabSize ∣ base) (hnext : ∀ p, slabMask p = base → next' p = next p) :
    SlabInv base classIdx h next' lists place := by
  have hslot {tag : SlotPlace} {p : ℕ} (hp : p ∈ lists tag) : next' p = next p := by
    obtain ⟨i, -, -, -, -, hmask⟩ := slot_geometry hbase (hinv.mem_slots hp)
    exact hnext p hmask
  exact hinv.congr_next (fun p hp => hslot hp) (fun p hp => hslot hp)

/-- The memory of other pages does not matter. -/
theorem SlabOk.congr_next (hok : SlabOk next live base h) (hbase : slabSize ∣ base)
    (hnext : ∀ p, slabMask p = base → next' p = next p) : SlabOk next' live base h := by
  obtain ⟨lists, place, hinv, hdrain, hlive⟩ := hok
  exact ⟨lists, place, hinv.congr_page hbase hnext, hdrain, hlive⟩

/-- The free lists do not read the memory of other pages. -/
theorem SlabOk.walks_congr (hok : SlabOk next live base h) (hbase : slabSize ∣ base)
    (hnext : ∀ p, slabMask p = base → next' p = next p) :
    h.localSlots next' = h.localSlots next ∧ h.remoteSlots next' = h.remoteSlots next := by
  obtain ⟨lists, place, hinv, -, -⟩ := hok
  have hinv' := hinv.congr_page hbase hnext
  rw [hinv.walks.1, hinv.walks.2, hinv'.walks.1, hinv'.walks.2]
  exact ⟨rfl, rfl⟩

/-- Only the allocations served from the page matter. -/
theorem SlabOk.congr_live (hok : SlabOk next live base h)
    (hlive : ∀ a ∈ live', a.ServedFrom base → a ∈ live) :
    SlabOk next live' base h := by
  obtain ⟨lists, place, hinv, hdrain, hslots⟩ := hok
  exact ⟨lists, place, hinv, hdrain, fun a ha hserved => hslots a (hlive a ha hserved) hserved⟩

/-- The owner of a slab does not matter to its slots. -/
theorem SlabOk.setHeapId (hok : SlabOk next live base h) (id : ℕ) :
    SlabOk next live base { h with heapId := id } := by
  obtain ⟨lists, place, hinv, hdrain, hlive⟩ := hok
  exact ⟨lists, place, hinv.congr rfl rfl rfl rfl rfl rfl rfl rfl, hdrain, hlive⟩

/-- A new slab in a page that serves no live allocation. -/
theorem slabOk_init (base classIdx heapId : ℕ) (next : ℕ → Option ℕ)
    (hlive : ∀ a ∈ live, ¬a.ServedFrom base) :
    SlabOk next live base (SlabHeader.init classIdx heapId) :=
  ⟨_, _, slabInv_init base classIdx heapId next, rfl,
    fun a ha hserved => absurd hserved (hlive a ha)⟩

/-- `alloc` hands out a slot no live allocation is in. -/
theorem SlabOk.alloc (hok : SlabOk next live base h) (halloc : h.alloc next base = some (slot, h'))
    (layout : Layout) :
    SlabOk next (⟨slot, layout⟩ :: live) base h' ∧
      slot ∈ slabSlots base (classSize h.sizeClassIndex) ∧
      (∀ a ∈ live, a.ServedFrom base → a.ptr ≠ slot) ∧ h'.freeCount + 1 = h.freeCount := by
  obtain ⟨lists, place, hinv, hdrain, hlive⟩ := hok
  obtain ⟨src, hsrc, hslot, hcount, hinv'⟩ := hinv.alloc halloc
  obtain ⟨list, cursor, remaining, rfl⟩ := SlabHeader.alloc_frame halloc
  have hne (tag : SlotPlace) (hlocal : tag ≠ .localList) (hbump : tag ≠ .bump) : tag ≠ src := by
    rcases hsrc with rfl | rfl
    · exact hlocal
    · exact hbump
  refine ⟨⟨_, _, hinv', ?_, fun a ha hserved => ?_⟩, hinv.mem_slots hslot, ?_, hcount⟩
  · rw [transfer_of_ne (hne _ (by simp) (by simp)) (by simp)]
    exact hdrain
  · rw [transfer_dst]
    rcases List.mem_cons.mp ha with rfl | hmem
    · exact List.mem_cons_self
    · exact List.mem_cons_of_mem _ (hlive a hmem hserved)
  · rintro a ha hserved rfl
    exact hne .live (by simp) (by simp) (hinv.placed.unique (hlive a ha hserved) hslot)

/-- `alloc` fails exactly when no slot is available. -/
theorem SlabOk.alloc_eq_none (hok : SlabOk next live base h) :
    h.alloc next base = none ↔ h.freeCount = 0 := by
  obtain ⟨lists, place, hinv, -, -⟩ := hok
  exact hinv.alloc_eq_none

/-- The other live allocations stay in use when one is freed. -/
theorem mem_transfer_live {dst : SlotPlace} (hdst : dst ≠ .live) {a : Allocation} (ha : a ∈ live)
    (honce : (live.map Allocation.ptr).Nodup)
    (hlive : ∀ a ∈ live, a.ServedFrom base → a.ptr ∈ lists .live) :
    ∀ b ∈ live.erase a, b.ServedFrom base → b.ptr ∈ transfer lists .live dst a.ptr .live := by
  intro b hb hserved
  have hlivenodup : live.Nodup := honce.of_map _
  obtain ⟨hba, hmem⟩ := hlivenodup.mem_erase_iff.mp hb
  have hne : b.ptr ≠ a.ptr := fun hptr => hba (List.inj_on_of_nodup_map honce hmem ha hptr)
  rw [transfer_src hdst, List.mem_erase_of_ne hne]
  exact hlive b hmem hserved

/-- `dealloc_local` puts the slot of an allocation on the local list. -/
theorem SlabOk.deallocLocal (hok : SlabOk next live base h) {a : Allocation} (ha : a ∈ live)
    (hserved : a.ServedFrom base) (honce : (live.map Allocation.ptr).Nodup) :
    SlabOk (Function.update next a.ptr h.localList.head) (live.erase a) base
      (h.deallocLocal a.ptr) ∧ (h.deallocLocal a.ptr).freeCount = h.freeCount + 1 := by
  obtain ⟨lists, place, hinv, hdrain, hlive⟩ := hok
  obtain ⟨hinv', hcount⟩ := hinv.pushLocal (hlive a ha hserved) ⟨by simp, by simp, by simp⟩
  refine ⟨⟨_, _, hinv', ?_, mem_transfer_live (by simp) ha honce hlive⟩, hcount⟩
  rw [transfer_of_ne (by simp) (by simp)]
  exact hdrain

/-- `dealloc_remote` puts the slot of an allocation on the remote stack. -/
theorem SlabOk.deallocRemote (hok : SlabOk next live base h) {a : Allocation} (ha : a ∈ live)
    (hserved : a.ServedFrom base) (honce : (live.map Allocation.ptr).Nodup) :
    SlabOk (Function.update next a.ptr h.remoteHead) (live.erase a) base
      (h.deallocRemote a.ptr) := by
  obtain ⟨lists, place, hinv, hdrain, hlive⟩ := hok
  have hslot := hlive a ha hserved
  have hwritten := hinv.write hslot (by simp) (by simp) h.remoteHead
  have hinv' := hwritten.pushRemote hslot ⟨by simp, by simp, by simp⟩ (Function.update_self _ _ _)
  refine ⟨_, _, hinv', ?_, mem_transfer_live (by simp) ha honce hlive⟩
  rw [transfer_of_ne (by simp) (by simp)]
  exact hdrain

/-- The program may write to an allocation. -/
theorem SlabOk.write (hok : SlabOk next live base h) {a : Allocation} (ha : a ∈ live)
    (hserved : a.ServedFrom base) (value : Option ℕ) :
    SlabOk (Function.update next a.ptr value) live base h := by
  obtain ⟨lists, place, hinv, hdrain, hlive⟩ := hok
  exact ⟨lists, place, hinv.write (hlive a ha hserved) (by simp) (by simp) value, hdrain, hlive⟩

end ClMalloc
