import ClMalloc.Pool

/-!
# One slab: its header, its free lists and its slots

A slab is a page of 65536 bytes with a header of 72 bytes at its base. A free slot keeps the
link of its free list in its own first eight bytes, so the memory behind the links is a map
from slots to links; slots are disjoint and hold at least eight bytes, so each slot has a
cell of its own. The counters are sixteen bits wide and are written with their wrap-around,
`bump_cursor` included, which may wrap when the last slot is carved.
-/

namespace ClMalloc

/-- Arithmetic in `u16` keeps the low sixteen bits. -/
def u16 (n : ℕ) : ℕ := n % 0x10000

/-- The size of a `SlabHeader` on a 64-bit target. -/
def slabHeaderSize : ℕ := 72

/-- `SLAB_MASK`: the base of the slab an address lies in. -/
def slabMask (ptr : ℕ) : ℕ := ptr - ptr % slabSize

/-- An address lies in its slab. -/
theorem slabMask_le (p : ℕ) : slabMask p ≤ p ∧ p < slabMask p + slabSize := by
  unfold slabMask slabSize
  omega

/-- The owner's list of free slots, with its length. -/
structure SlotFreeList where
  head : Option ℕ
  len : ℕ
  deriving DecidableEq

/-- `SlotFreeList::EMPTY`. -/
def SlotFreeList.empty : SlotFreeList := ⟨none, 0⟩

/-- `SlotFreeList::pop`: the first slot, and the list from its link on. -/
def SlotFreeList.pop (list : SlotFreeList) (next : ℕ → Option ℕ) : Option (ℕ × SlotFreeList) :=
  match list.head with
  | none => none
  | some slot => some (slot, ⟨next slot, u16 (list.len + 0xffff)⟩)

/-- `SlotFreeList::push` writes the link of the slot, which is the caller's memory update. -/
def SlotFreeList.push (list : SlotFreeList) (slot : ℕ) : SlotFreeList :=
  ⟨some slot, u16 (list.len + 1)⟩

/-- The header at the base of a slab; its `next_link` and `prev_link` are kept with the lists they
link. -/
structure SlabHeader where
  slotSize : ℕ
  slotCount : ℕ
  slotsOffset : ℕ
  sizeClassIndex : ℕ
  heapId : ℕ
  bumpCursor : ℕ
  bumpRemaining : ℕ
  localList : SlotFreeList
  remoteHead : Option ℕ
  deriving DecidableEq

/-- The offset of the first slot. -/
def slotsOffsetOf (slotSize : ℕ) : ℕ := nextMultipleOf slabHeaderSize slotSize

/-- The number of slots that fit behind the offset. -/
def slotCountOf (slotSize : ℕ) : ℕ := (slabSize - slotsOffsetOf slotSize) / slotSize

/-- `SlabHeader::init`. -/
def SlabHeader.init (sizeClassIndex heapId : ℕ) : SlabHeader :=
  let slotSize := classSize sizeClassIndex
  let slotsOffset := slotsOffsetOf slotSize
  let slotCount := slotCountOf slotSize
  { slotSize := u16 slotSize
    slotCount := u16 slotCount
    slotsOffset := u16 slotsOffset
    sizeClassIndex := sizeClassIndex
    heapId := heapId
    bumpCursor := u16 slotsOffset
    bumpRemaining := u16 slotCount
    localList := .empty
    remoteHead := none }

/-- `free_count`: slots on the local list and uncarved ones. -/
def SlabHeader.freeCount (h : SlabHeader) : ℕ := u16 (h.localList.len + h.bumpRemaining)

/-- `is_fully_free`: every slot is available. -/
def SlabHeader.isFullyFree (h : SlabHeader) : Bool := h.freeCount == h.slotCount

/-- `has_pending_remote`: the remote list has entries. -/
def SlabHeader.hasPendingRemote (h : SlabHeader) : Bool := h.remoteHead.isSome

/-- `Slab::alloc`: a recycled slot if there is one, else a slot carved from the bump region. -/
def SlabHeader.alloc (h : SlabHeader) (next : ℕ → Option ℕ) (base : ℕ) : Option (ℕ × SlabHeader) :=
  match h.localList.pop next with
  | some (slot, list) => some (slot, { h with localList := list })
  | none =>
    if 0 < h.bumpRemaining then
      some (base + h.bumpCursor,
        { h with
          bumpCursor := u16 (h.bumpCursor + h.slotSize)
          bumpRemaining := u16 (h.bumpRemaining + 0xffff) })
    else none

/-- `Slab::dealloc_local` on the header; the link of the slot is set to the old head. -/
def SlabHeader.deallocLocal (h : SlabHeader) (slot : ℕ) : SlabHeader :=
  { h with localList := h.localList.push slot }

/-- `SlabRef::dealloc_remote` as one step on the header; the link of the slot is set to the old
head. -/
def SlabHeader.deallocRemote (h : SlabHeader) (slot : ℕ) : SlabHeader :=
  { h with remoteHead := some slot }

/-- The loop of `drain_remote`: read the link, push the slot, go on from the link. -/
def drainLoop :
    ℕ → (ℕ → Option ℕ) → SlotFreeList → Option ℕ → Option ((ℕ → Option ℕ) × SlotFreeList)
  | _, next, list, none => some (next, list)
  | 0, _, _, some _ => none
  | fuel + 1, next, list, some slot =>
    drainLoop fuel (Function.update next slot list.head) (list.push slot) (next slot)

/-- `Slab::drain_remote`, to its end; a chain longer than the slab would not end. -/
def SlabHeader.drainRemote (h : SlabHeader) (next : ℕ → Option ℕ) :
    Option ((ℕ → Option ℕ) × SlabHeader) :=
  match drainLoop h.slotCount next h.localList h.remoteHead with
  | some (next, list) => some (next, { h with remoteHead := none, localList := list })
  | none => none

/-- The slot with an index. -/
def slotAddr (base slotSize i : ℕ) : ℕ := base + slotsOffsetOf slotSize + i * slotSize

/-- The slots of a slab, in address order. -/
def slabSlots (base slotSize : ℕ) : List ℕ :=
  (List.range (slotCountOf slotSize)).map (slotAddr base slotSize)

/-- The slots the bump pointer has not carved yet. -/
def uncarved (base slotSize remaining : ℕ) : List ℕ :=
  (List.range' (slotCountOf slotSize - remaining) remaining).map (slotAddr base slotSize)

/-- The geometry of every size class: slots of at least eight bytes behind the header, within the
page. -/
theorem slab_geometry (classIdx : ℕ) :
    8 ≤ classSize classIdx ∧ classSize classIdx ≤ 32768 ∧ 72 ≤ slotsOffsetOf (classSize classIdx) ∧
      classSize classIdx ∣ slotsOffsetOf (classSize classIdx) ∧
        0 < slotCountOf (classSize classIdx) ∧
      slotsOffsetOf (classSize classIdx) + slotCountOf (classSize classIdx) * classSize classIdx ≤
        65536 := by
  by_cases hlast : numRegular ≤ classIdx
  · have hsize : classSize classIdx = 32768 := by
      rw [classSize, if_pos hlast]
      rfl
    rw [hsize]
    decide
  · have hlt : classIdx < 48 := by
      simp only [numRegular, maxK, minK, subSteps] at hlast
      omega
    interval_cases classIdx <;> decide

end ClMalloc
