import ClMalloc.Slab
import ClMalloc.Lib.Chain
import ClMalloc.Lib.Placement

/-!
# The slots of one slab are in one place each

A slot is in use, in the middle of a remote free, on the local list, on the remote stack, in
a chain being drained, or not carved yet. `SlabInv` ties the lists of these places to the
header and to the links in the slots: the local list and the remote stack are chains, the
length field is the length of the local list, and the bump region is the tail of the slots.
Each operation of the slab moves one slot, or one chain, from a place to another.
-/

namespace ClMalloc

open Intrusive Placement

/-- The places a slot can be in. -/
inductive SlotPlace
  | live
  | freeing (t : ℕ)
  | localList
  | remote
  | drain
  | bump
  deriving DecidableEq

/-- The place is none of those the header describes. -/
def SlotPlace.Loose (place : SlotPlace) : Prop :=
  place ≠ .localList ∧ place ≠ .remote ∧ place ≠ .bump

/-- The header and the links agree with the places of the slots. -/
structure SlabInv (base classIdx : ℕ) (h : SlabHeader) (next : ℕ → Option ℕ)
    (lists : SlotPlace → List ℕ) (place : ℕ → Option SlotPlace) : Prop where
  sizeClassIndex : h.sizeClassIndex = classIdx
  slotSize : h.slotSize = classSize classIdx
  slotCount : h.slotCount = slotCountOf (classSize classIdx)
  slotsOffset : h.slotsOffset = slotsOffsetOf (classSize classIdx)
  placed : Placed lists place
  slots : ∀ p, (place p).isSome = true ↔ p ∈ slabSlots base (classSize classIdx)
  localChain : Chain next h.localList.head (lists .localList)
  localLen : h.localList.len = (lists .localList).length
  remoteChain : Chain next h.remoteHead (lists .remote)
  remaining_le : h.bumpRemaining ≤ slotCountOf (classSize classIdx)
  bump : lists .bump = uncarved base (classSize classIdx) h.bumpRemaining
  cursor : 0 < h.bumpRemaining → h.bumpCursor =
    slotsOffsetOf (classSize classIdx) + (slotCountOf (classSize classIdx) - h.bumpRemaining) *
      classSize classIdx

/-- Different indices have different slots. -/
theorem slotAddr_injective (base : ℕ) {slotSize : ℕ} (hsize : 0 < slotSize) :
    Function.Injective (slotAddr base slotSize) := by
  intro i j hij
  unfold slotAddr at hij
  exact Nat.eq_of_mul_eq_mul_right hsize (Nat.add_left_cancel hij)

/-- The slots of a slab are as many as its header says, and fewer than sixteen bits count. -/
theorem slabSlots_length (base classIdx : ℕ) :
    (slabSlots base (classSize classIdx)).length = slotCountOf (classSize classIdx) ∧
      slotCountOf (classSize classIdx) < 65536 := by
  obtain ⟨hmin, -, hoff, -, -, hfit⟩ := slab_geometry classIdx
  refine ⟨by simp [slabSlots], ?_⟩
  have : slotCountOf (classSize classIdx) * 1 ≤
      slotCountOf (classSize classIdx) * classSize classIdx :=
    Nat.mul_le_mul_left _ (by omega)
  omega

/-- No slot is listed twice. -/
theorem slabSlots_nodup (base classIdx : ℕ) : (slabSlots base (classSize classIdx)).Nodup := by
  have hmin := (slab_geometry classIdx).1
  exact List.nodup_range.map (slotAddr_injective base (by omega))

/-- A slab that carved nothing has its whole range uncarved. -/
theorem uncarved_all (base slotSize : ℕ) :
    uncarved base slotSize (slotCountOf slotSize) = slabSlots base slotSize := by
  unfold uncarved slabSlots
  rw [Nat.sub_self, List.range_eq_range']

/-- Carving takes the first uncarved slot. -/
theorem uncarved_succ {base slotSize remaining : ℕ} (hle : remaining + 1 ≤ slotCountOf slotSize) :
    uncarved base slotSize (remaining + 1) =
      slotAddr base slotSize (slotCountOf slotSize - (remaining + 1)) ::
        uncarved base slotSize remaining := by
  unfold uncarved
  rw [List.range'_succ, List.map_cons]
  congr 3
  omega

/-- The bump region has as many slots as the header says. -/
theorem uncarved_length (base slotSize remaining : ℕ) :
    (uncarved base slotSize remaining).length = remaining := by
  simp [uncarved]

variable {base classIdx : ℕ} {h h' : SlabHeader} {next : ℕ → Option ℕ} {lists : SlotPlace → List ℕ}
  {place : ℕ → Option SlotPlace} {slot : ℕ} {src dst : SlotPlace}

/-- A slot with a place is one of the slots of the slab. -/
theorem SlabInv.mem_slots (hinv : SlabInv base classIdx h next lists place)
    (hslot : slot ∈ lists src) :
    slot ∈ slabSlots base (classSize classIdx) :=
  (hinv.slots slot).mp (by simp [hinv.placed.mem_iff.mp hslot])

/-- Slots elsewhere are not available ones. -/
theorem SlabInv.count_le (hinv : SlabInv base classIdx h next lists place) {others : List ℕ}
    (hnodup : others.Nodup)
    (hothers : ∀ p ∈ others, ∃ tag, tag ≠ .localList ∧ tag ≠ .bump ∧ p ∈ lists tag) :
    h.localList.len + h.bumpRemaining + others.length ≤ slotCountOf (classSize classIdx) := by
  have havailable : (lists .localList ++ lists .bump).Nodup :=
    List.nodup_append.mpr ⟨hinv.placed.nodup _, hinv.placed.nodup _, fun a ha b hb hab => by
      subst hab
      exact absurd (hinv.placed.unique ha hb) (by simp)⟩
  have hall : (lists .localList ++ lists .bump ++ others).Nodup := by
    refine List.nodup_append.mpr ⟨havailable, hnodup, ?_⟩
    rintro a ha b hb rfl
    obtain ⟨tag, hlocal, hbump, hmem⟩ := hothers a hb
    rcases List.mem_append.mp ha with hin | hin
    · exact hlocal (hinv.placed.unique hmem hin)
    · exact hbump (hinv.placed.unique hmem hin)
  have hsub : lists .localList ++ lists .bump ++ others ⊆ slabSlots base (classSize classIdx) := by
    intro p hp
    simp only [List.mem_append] at hp
    rcases hp with (hp | hp) | hp
    · exact hinv.mem_slots hp
    · exact hinv.mem_slots hp
    · obtain ⟨tag, -, -, hmem⟩ := hothers p hp
      exact hinv.mem_slots hmem
  have hlen := List.Nodup.length_le_of_subset hall hsub
  rw [(slabSlots_length base classIdx).1, List.length_append, List.length_append, hinv.bump,
    uncarved_length, ← hinv.localLen] at hlen
  exact hlen

/-- The counters never exceed the number of slots, so their sum does not wrap. -/
theorem SlabInv.freeCount_eq (hinv : SlabInv base classIdx h next lists place) :
    h.freeCount = h.localList.len + h.bumpRemaining ∧
      h.localList.len + h.bumpRemaining ≤ slotCountOf (classSize classIdx) := by
  have hle := hinv.count_le List.nodup_nil (by simp)
  have hlt := (slabSlots_length base classIdx).2
  rw [List.length_nil, Nat.add_zero] at hle
  exact ⟨Nat.mod_eq_of_lt (by omega), hle⟩

/-- A slot that is in use or being freed leaves room in the counters. -/
theorem SlabInv.freeCount_lt (hinv : SlabInv base classIdx h next lists place)
    (hslot : slot ∈ lists src) (hlocal : src ≠ .localList) (hbump : src ≠ .bump) :
    h.freeCount < slotCountOf (classSize classIdx) := by
  have hle := hinv.count_le (List.nodup_singleton slot) (by simpa using ⟨src, hlocal, hbump, hslot⟩)
  have := hinv.freeCount_eq.1
  simp only [List.length_singleton] at hle
  omega

/-- A fully free slab has no slot anywhere but on the local list and in the bump region. -/
theorem SlabInv.eq_nil_of_isFullyFree (hinv : SlabInv base classIdx h next lists place)
    (hfree : h.isFullyFree = true) (hlocal : src ≠ .localList) (hbump : src ≠ .bump) :
    lists src = [] := by
  refine List.eq_nil_iff_forall_not_mem.mpr fun slot hslot => ?_
  have hlt := hinv.freeCount_lt hslot hlocal hbump
  rw [SlabHeader.isFullyFree, beq_iff_eq, hinv.slotCount] at hfree
  omega

/-- The invariant only reads the fields that describe the slots. -/
theorem SlabInv.congr (hinv : SlabInv base classIdx h next lists place)
    (hclass : h'.sizeClassIndex = h.sizeClassIndex) (hsize : h'.slotSize = h.slotSize)
    (hcount : h'.slotCount = h.slotCount) (hoffset : h'.slotsOffset = h.slotsOffset)
    (hlocal : h'.localList = h.localList)
    (hremote : h'.remoteHead = h.remoteHead) (hremaining : h'.bumpRemaining = h.bumpRemaining)
    (hcursor : h'.bumpCursor = h.bumpCursor) : SlabInv base classIdx h' next lists place where
  sizeClassIndex := hclass ▸ hinv.sizeClassIndex
  slotSize := hsize ▸ hinv.slotSize
  slotCount := hcount ▸ hinv.slotCount
  slotsOffset := hoffset ▸ hinv.slotsOffset
  placed := hinv.placed
  slots := hinv.slots
  localChain := hlocal ▸ hinv.localChain
  localLen := hlocal ▸ hinv.localLen
  remoteChain := hremote ▸ hinv.remoteChain
  remaining_le := hremaining ▸ hinv.remaining_le
  bump := hremaining ▸ hinv.bump
  cursor := by
    rw [hremaining, hcursor]
    exact hinv.cursor

/-- Links of slots on neither chain may change. -/
theorem SlabInv.congr_next (hinv : SlabInv base classIdx h next lists place) {next' : ℕ → Option ℕ}
    (hlocal : ∀ p ∈ lists .localList, next' p = next p)
    (hremote : ∀ p ∈ lists .remote, next' p = next p) :
    SlabInv base classIdx h next' lists place :=
  { hinv with
    localChain := hinv.localChain.congr hlocal
    remoteChain := hinv.remoteChain.congr hremote }

/-- The link of a slot that is in use, or being freed, may be written. -/
theorem SlabInv.write (hinv : SlabInv base classIdx h next lists place) (hslot : slot ∈ lists src)
    (hlocal : src ≠ .localList) (hremote : src ≠ .remote) (link : Option ℕ) :
    SlabInv base classIdx h (Function.update next slot link) lists place :=
  { hinv with
    localChain := hinv.localChain.update_of_notMem (hinv.placed.notMem hslot hlocal) link
    remoteChain := hinv.remoteChain.update_of_notMem (hinv.placed.notMem hslot hremote) link }

/-- The slots of the slab stay the same when one passes from a place to another. -/
theorem SlabInv.slots_pass (hinv : SlabInv base classIdx h next lists place)
    (hslot : slot ∈ lists src) (p : ℕ) :
    (relocate place [slot] (some dst) p).isSome = true ↔
      p ∈ slabSlots base (classSize classIdx) := by
  rw [hinv.placed.isSome_relocate src (List.forall_mem_singleton.mpr hslot)]
  exact hinv.slots p

/-- A slot passes between places the header does not describe. -/
theorem SlabInv.pass (hinv : SlabInv base classIdx h next lists place) (hslot : slot ∈ lists src)
    (hsrc : src.Loose) (hdst : dst.Loose) (hne : dst ≠ src) :
    SlabInv base classIdx h next (transfer lists src dst slot)
      (relocate place [slot] (some dst)) where
  sizeClassIndex := hinv.sizeClassIndex
  slotSize := hinv.slotSize
  slotCount := hinv.slotCount
  slotsOffset := hinv.slotsOffset
  placed := hinv.placed.pass src dst hne hslot
  slots := hinv.slots_pass hslot
  localChain := by
    rw [transfer_of_ne hsrc.1.symm hdst.1.symm]
    exact hinv.localChain
  localLen := by
    rw [transfer_of_ne hsrc.1.symm hdst.1.symm]
    exact hinv.localLen
  remoteChain := by
    rw [transfer_of_ne hsrc.2.1.symm hdst.2.1.symm]
    exact hinv.remoteChain
  remaining_le := hinv.remaining_le
  bump := by
    rw [transfer_of_ne hsrc.2.2.symm hdst.2.2.symm]
    exact hinv.bump
  cursor := hinv.cursor

/-- A slot goes onto the local list. -/
theorem SlabInv.pushLocal (hinv : SlabInv base classIdx h next lists place)
    (hslot : slot ∈ lists src) (hsrc : src.Loose) :
    SlabInv base classIdx (h.deallocLocal slot) (Function.update next slot h.localList.head)
        (transfer lists src .localList slot) (relocate place [slot] (some .localList)) ∧
      (h.deallocLocal slot).freeCount = h.freeCount + 1 := by
  have hlt := hinv.freeCount_lt hslot hsrc.1 hsrc.2.2
  have hcount := (slabSlots_length base classIdx).2
  obtain ⟨hfree, -⟩ := hinv.freeCount_eq
  have hlen : u16 (h.localList.len + 1) = h.localList.len + 1 := Nat.mod_eq_of_lt (by omega)
  constructor
  · exact
      { sizeClassIndex := hinv.sizeClassIndex
        slotSize := hinv.slotSize
        slotCount := hinv.slotCount
        slotsOffset := hinv.slotsOffset
        placed := hinv.placed.pass src .localList hsrc.1.symm hslot
        slots := hinv.slots_pass hslot
        localChain := by
          rw [transfer_dst]
          exact hinv.localChain.push (hinv.placed.notMem hslot hsrc.1)
        localLen := by
          rw [transfer_dst]
          change u16 (h.localList.len + 1) = _
          rw [hlen, List.length_cons, hinv.localLen]
        remoteChain := by
          rw [transfer_of_ne hsrc.2.1.symm (by simp)]
          exact hinv.remoteChain.update_of_notMem (hinv.placed.notMem hslot hsrc.2.1) _
        remaining_le := hinv.remaining_le
        bump := by
          rw [transfer_of_ne hsrc.2.2.symm (by simp)]
          exact hinv.bump
        cursor := hinv.cursor }
  · change u16 (u16 (h.localList.len + 1) + h.bumpRemaining) = _
    rw [hlen, hfree]
    exact (Nat.mod_eq_of_lt (by omega)).trans (by omega)

/-- A slot whose link is the remote head goes onto the remote stack. -/
theorem SlabInv.pushRemote (hinv : SlabInv base classIdx h next lists place)
    (hslot : slot ∈ lists src) (hsrc : src.Loose) (hlink : next slot = h.remoteHead) :
    SlabInv base classIdx (h.deallocRemote slot) next (transfer lists src .remote slot)
      (relocate place [slot] (some .remote)) where
  sizeClassIndex := hinv.sizeClassIndex
  slotSize := hinv.slotSize
  slotCount := hinv.slotCount
  slotsOffset := hinv.slotsOffset
  placed := hinv.placed.pass src .remote hsrc.2.1.symm hslot
  slots := hinv.slots_pass hslot
  localChain := by
    rw [transfer_of_ne hsrc.1.symm (by simp)]
    exact hinv.localChain
  localLen := by
    rw [transfer_of_ne hsrc.1.symm (by simp)]
    exact hinv.localLen
  remoteChain := by
    rw [transfer_dst]
    exact hinv.remoteChain.cons hlink
  remaining_le := hinv.remaining_le
  bump := by
    rw [transfer_of_ne hsrc.2.2.symm (by simp)]
    exact hinv.bump
  cursor := hinv.cursor

/-- A slot on the local list is handed out. -/
theorem SlabInv.popLocal (hinv : SlabInv base classIdx h next lists place)
    (hhead : h.localList.head = some slot) :
    slot ∈ lists .localList ∧ u16 (h.localList.len + 0xffff) + 1 = h.localList.len ∧
      SlabInv base classIdx { h with localList := ⟨next slot, u16 (h.localList.len + 0xffff)⟩ } next
        (transfer lists .localList .live slot) (relocate place [slot] (some .live)) := by
  have hchain := hinv.localChain
  rw [hhead] at hchain
  obtain ⟨rest, hlist, hrest⟩ := hchain.exists_cons
  have hslot : slot ∈ lists .localList := by simp [hlist]
  have herase : (lists .localList).erase slot = rest := by simp [hlist]
  have hlen : h.localList.len = rest.length + 1 := by rw [hinv.localLen, hlist, List.length_cons]
  have hcount := (slabSlots_length base classIdx).2
  have hle := hinv.freeCount_eq.2
  have hdec : u16 (h.localList.len + 0xffff) = rest.length := by
    unfold u16
    omega
  refine ⟨hslot, by omega, ?_⟩
  exact
    { sizeClassIndex := hinv.sizeClassIndex
      slotSize := hinv.slotSize
      slotCount := hinv.slotCount
      slotsOffset := hinv.slotsOffset
      placed := hinv.placed.pass .localList .live (by simp) hslot
      slots := hinv.slots_pass hslot
      localChain := by
        rw [transfer_src (by simp), herase]
        exact hrest
      localLen := by
        rw [transfer_src (by simp), herase]
        exact hdec
      remoteChain := by
        rw [transfer_of_ne (by simp) (by simp)]
        exact hinv.remoteChain
      remaining_le := hinv.remaining_le
      bump := by
        rw [transfer_of_ne (by simp) (by simp)]
        exact hinv.bump
      cursor := hinv.cursor }

/-- The next uncarved slot is handed out. -/
theorem SlabInv.carve (hinv : SlabInv base classIdx h next lists place)
    (hremaining : 0 < h.bumpRemaining) :
    base + h.bumpCursor ∈ lists .bump ∧ u16 (h.bumpRemaining + 0xffff) + 1 = h.bumpRemaining ∧
      SlabInv base classIdx
        { h with
          bumpCursor := u16 (h.bumpCursor + h.slotSize)
          bumpRemaining := u16 (h.bumpRemaining + 0xffff) } next
        (transfer lists .bump .live (base + h.bumpCursor))
        (relocate place [base + h.bumpCursor] (some .live)) := by
  obtain ⟨hmin, -, hoff, -, -, hfit⟩ := slab_geometry classIdx
  obtain ⟨rest, hrest⟩ := Nat.exists_eq_succ_of_ne_zero hremaining.ne'
  have hcount := (slabSlots_length base classIdx).2
  have hle := hinv.remaining_le
  have hcursor := hinv.cursor hremaining
  have hdec : u16 (h.bumpRemaining + 0xffff) = rest := by
    unfold u16
    omega
  have haddr : base + h.bumpCursor = slotAddr base (classSize classIdx)
      (slotCountOf (classSize classIdx) - (rest + 1)) := by
    rw [hcursor, hrest, slotAddr, Nat.add_assoc]
  have hbump : lists .bump = (base + h.bumpCursor) :: uncarved base (classSize classIdx) rest := by
    rw [hinv.bump, haddr, hrest]
    exact uncarved_succ (by omega)
  have hslot : base + h.bumpCursor ∈ lists .bump := by simp [hbump]
  have herase : (lists .bump).erase (base + h.bumpCursor) =
      uncarved base (classSize classIdx) rest := by
    simp [hbump]
  refine ⟨hslot, by omega, ?_⟩
  exact
    { sizeClassIndex := hinv.sizeClassIndex
      slotSize := hinv.slotSize
      slotCount := hinv.slotCount
      slotsOffset := hinv.slotsOffset
      placed := hinv.placed.pass .bump .live (by simp) hslot
      slots := hinv.slots_pass hslot
      localChain := by
        rw [transfer_of_ne (by simp) (by simp)]
        exact hinv.localChain
      localLen := by
        rw [transfer_of_ne (by simp) (by simp)]
        exact hinv.localLen
      remoteChain := by
        rw [transfer_of_ne (by simp) (by simp)]
        exact hinv.remoteChain
      remaining_le := by
        change u16 (h.bumpRemaining + 0xffff) ≤ _
        omega
      bump := by
        rw [transfer_src (by simp), herase]
        exact congrArg _ hdec.symm
      cursor := fun hpos => by
        change 0 < u16 (h.bumpRemaining + 0xffff) at hpos
        change u16 (h.bumpCursor + h.slotSize) =
          _ + (_ - u16 (h.bumpRemaining + 0xffff)) * classSize classIdx
        rw [hdec] at hpos ⊢
        have hstep : slotCountOf (classSize classIdx) - rest =
            slotCountOf (classSize classIdx) - h.bumpRemaining + 1 := by omega
        have hwhole : slotCountOf (classSize classIdx) - rest + rest =
            slotCountOf (classSize classIdx) := by omega
        have hnext := congrArg (· * classSize classIdx) hwhole
        have hroom : classSize classIdx ≤ rest * classSize classIdx := Nat.le_mul_of_pos_left _ hpos
        rw [Nat.add_mul] at hnext
        rw [hcursor, hinv.slotSize, hstep, Nat.add_mul, Nat.one_mul, ← Nat.add_assoc]
        rw [hstep, Nat.add_mul, Nat.one_mul] at hnext
        exact Nat.mod_eq_of_lt (by omega) }

/-- `alloc` hands out an available slot and leaves one fewer. -/
theorem SlabInv.alloc (hinv : SlabInv base classIdx h next lists place)
    (halloc : h.alloc next base = some (slot, h')) :
    ∃ src, (src = .localList ∨ src = .bump) ∧ slot ∈ lists src ∧ h'.freeCount + 1 = h.freeCount ∧
      SlabInv base classIdx h' next (transfer lists src .live slot)
        (relocate place [slot] (some .live)) := by
  have hfree := hinv.freeCount_eq.1
  unfold SlabHeader.alloc SlotFreeList.pop at halloc
  split at halloc
  case h_1 slot' list' hpop =>
    split at hpop <;> try contradiction
    case h_2 slot'' hhead =>
      cases hpop
      cases halloc
      obtain ⟨hslot, hdec, hinv'⟩ := hinv.popLocal hhead
      refine ⟨.localList, .inl rfl, hslot, ?_, hinv'⟩
      rw [hinv'.freeCount_eq.1, hfree]
      change u16 (h.localList.len + 0xffff) + h.bumpRemaining + 1 = _
      omega
  case h_2 =>
    split at halloc <;> try contradiction
    case isTrue hremaining =>
      cases halloc
      obtain ⟨hslot, hdec, hinv'⟩ := hinv.carve hremaining
      refine ⟨.bump, .inr rfl, hslot, ?_, hinv'⟩
      rw [hinv'.freeCount_eq.1, hfree]
      change h.localList.len + u16 (h.bumpRemaining + 0xffff) + 1 = _
      omega

/-- `alloc` fails exactly when no slot is available. -/
theorem SlabInv.alloc_eq_none (hinv : SlabInv base classIdx h next lists place) :
    h.alloc next base = none ↔ h.freeCount = 0 := by
  rw [hinv.freeCount_eq.1]
  have hchain := hinv.localChain
  unfold SlabHeader.alloc SlotFreeList.pop
  cases hhead : h.localList.head with
  | none =>
    rw [hhead] at hchain
    have hlen := hinv.localLen
    rw [hchain.eq_nil, List.length_nil] at hlen
    by_cases hpos : 0 < h.bumpRemaining
    · simp [hpos]
      omega
    · simp [hlen]
  | some slot =>
    rw [hhead] at hchain
    obtain ⟨rest, hlist, -⟩ := hchain.exists_cons
    have hlen := hinv.localLen
    rw [hlist, List.length_cons] at hlen
    simp
    omega

/-- `alloc` changes the local list and the bump region only. -/
theorem SlabHeader.alloc_frame (halloc : h.alloc next base = some (slot, h')) :
    ∃ localList bumpCursor bumpRemaining,
      h' = { h with localList := localList, bumpCursor := bumpCursor,
                    bumpRemaining := bumpRemaining } := by
  unfold SlabHeader.alloc at halloc
  split at halloc
  case h_1 slot' list' hpop =>
    cases halloc
    exact ⟨_, _, _, rfl⟩
  case h_2 =>
    split at halloc <;> try contradiction
    cases halloc
    exact ⟨_, _, _, rfl⟩

/-- The swap of `drain_remote` takes the whole remote stack. -/
theorem SlabInv.swapRemote (hinv : SlabInv base classIdx h next lists place) :
    SlabInv base classIdx { h with remoteHead := none } next
      (Function.update (Function.update lists .remote []) .drain (lists .remote ++ lists .drain))
      (relocate place (lists .remote) (some .drain)) where
  sizeClassIndex := hinv.sizeClassIndex
  slotSize := hinv.slotSize
  slotCount := hinv.slotCount
  slotsOffset := hinv.slotsOffset
  placed := hinv.placed.passAll .remote .drain (by simp)
  slots := fun p => by
    rw [hinv.placed.isSome_relocate .remote fun _ hp => hp]
    exact hinv.slots p
  localChain := hinv.localChain
  localLen := hinv.localLen
  remoteChain := rfl
  remaining_le := hinv.remaining_le
  bump := hinv.bump
  cursor := hinv.cursor

/-- The lists of a new slab. -/
def freshSlots (base classIdx : ℕ) : SlotPlace → List ℕ
  | .bump => slabSlots base (classSize classIdx)
  | _ => []

/-- Every slot of a new slab is uncarved. -/
theorem slabInv_init (base classIdx heapId : ℕ) (next : ℕ → Option ℕ) :
    SlabInv base classIdx (SlabHeader.init classIdx heapId) next (freshSlots base classIdx)
      fun p => if p ∈ slabSlots base (classSize classIdx) then some .bump else none := by
  obtain ⟨hmin, hmax, hoff, -, hpos, hfit⟩ := slab_geometry classIdx
  have hcount := (slabSlots_length base classIdx).2
  have hoffset : slotsOffsetOf (classSize classIdx) < 65536 := by
    have : 0 < slotCountOf (classSize classIdx) * classSize classIdx := Nat.mul_pos hpos (by omega)
    omega
  have hmod : u16 (slotCountOf (classSize classIdx)) = slotCountOf (classSize classIdx) :=
    Nat.mod_eq_of_lt hcount
  exact
    { sizeClassIndex := rfl
      slotSize := Nat.mod_eq_of_lt (by omega)
      slotCount := hmod
      slotsOffset := Nat.mod_eq_of_lt hoffset
      placed := fun tag => by
        cases tag <;> simp [freshSlots, slabSlots_nodup]
      slots := fun p => by
        by_cases hp : p ∈ slabSlots base (classSize classIdx) <;> simp [hp]
      localChain := rfl
      localLen := rfl
      remoteChain := rfl
      remaining_le := hmod.le
      bump := by
        change _ = uncarved base _ (u16 (slotCountOf (classSize classIdx)))
        rw [hmod, uncarved_all]
        rfl
      cursor := fun _ => by
        change u16 (slotsOffsetOf (classSize classIdx)) =
          _ + (_ - u16 (slotCountOf (classSize classIdx))) * _
        rw [hmod, Nat.sub_self, Nat.zero_mul, Nat.add_zero]
        exact Nat.mod_eq_of_lt hoffset }

end ClMalloc
