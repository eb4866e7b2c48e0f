import ClMalloc.PoolSegments

/-!
# Returning a page and releasing its segment

`dealloc_slab` puts the page on the dirty list and uncounts it. When the segment's count
reaches zero and the cursor is not in its range, the section unlinks the segment's pages
from both lists and swap-removes it from the table. The removed table is described through
the index that a surviving position had before.
-/

namespace ClMalloc

open Intrusive

variable {T : Type} {st : PoolState} {kind : ℕ → PageKind T}

/-- The list walk filters the pages and subtracts the number removed. -/
theorem removeIfWalk_eq (pred : ℕ → Bool) (pages : List ℕ) (len : ℕ) :
    removeIfWalk pred pages len = (pages.filter fun p => !pred p, len - pages.countP pred) := by
  induction pages generalizing len with
  | nil => simp [removeIfWalk]
  | cons slab rest ih =>
    rw [removeIfWalk]
    split
    · rename_i hpred
      rw [ih]
      simp [hpred, Nat.sub_sub, Nat.add_comm]
    · rename_i hpred
      simp [ih, hpred]

/-- Filtering a list keyed by a kind, when the pages filtered out all leave that kind. -/
theorem PageFreeList.removeIf_spec (l : PageFreeList) (pred : ℕ → Bool)
    (hlen : l.len = l.pages.length) :
    (l.removeIf pred).pages = l.pages.filter (fun p => !pred p) ∧
      (l.removeIf pred).len = (l.removeIf pred).pages.length := by
  have heq := removeIfWalk_eq pred l.pages l.len
  refine ⟨congrArg Prod.fst heq, ?_⟩
  have hcount := List.length_eq_countP_add_countP pred (l := l.pages)
  rw [removeIf, heq]
  simp only [← List.countP_eq_length_filter, hlen]
  simp only [Bool.not_eq_true, ← Bool.not_eq_true', Bool.decide_eq_true] at hcount
  omega

/-- The old index of the segment at position `i` after swap-removing position `seg`. -/
def swapIndex (last seg i : ℕ) : ℕ := if i = seg then last else i

/-- A surviving position comes from another index than the removed one. -/
theorem swapIndex_lt {count i : ℕ} (seg : ℕ) (hi : i < count - 1) :
    swapIndex (count - 1) seg i < count ∧ swapIndex (count - 1) seg i ≠ seg := by
  unfold swapIndex
  split <;> omega

/-- Every index but the removed one survives at some position. -/
theorem exists_swapIndex {count seg j : ℕ} (hseg : seg < count) (hj : j < count) (hne : j ≠ seg) :
    ∃ i < count - 1, swapIndex (count - 1) seg i = j := by
  by_cases hlast : j = count - 1
  · exact ⟨seg, by omega, by simp [swapIndex, hlast]⟩
  · exact ⟨j, by omega, by simp [swapIndex, hne]⟩

/-- Different surviving positions come from different indices. -/
theorem swapIndex_injective {count seg i j : ℕ} (hi : i < count - 1) (hj : j < count - 1)
    (h : swapIndex (count - 1) seg i = swapIndex (count - 1) seg j) : i = j := by
  unfold swapIndex at h
  split at h <;> split at h <;> omega

/-- The table after swap-removal, read through the old indices. -/
theorem swapRemoveSegment_table (st : PoolState) (seg : ℕ) {i : ℕ} (hi : i < st.segmentCount - 1) :
    (swapRemoveSegment st seg).segments i = st.segments (swapIndex (st.segmentCount - 1) seg i) ∧
      (swapRemoveSegment st seg).segOutstanding i =
        st.segOutstanding (swapIndex (st.segmentCount - 1) seg i) := by
  have hne : i ≠ st.segmentCount - 1 := by omega
  by_cases hlast : seg = st.segmentCount - 1
  · subst hlast
    simp [swapRemoveSegment, swapIndex, hne]
  · by_cases his : i = seg
    · subst his
      simp [swapRemoveSegment, swapIndex, hne]
    · simp [swapRemoveSegment, swapIndex, hlast, his, hne]

/-- The entries past the shortened table are null. -/
theorem swapRemoveSegment_unused (seg i : ℕ) (hi : st.segmentCount - 1 ≤ i)
    (hunused : i ≠ st.segmentCount - 1 → st.segments i = 0 ∧ st.segOutstanding i = 0)
    (hseg : seg < st.segmentCount) :
    (swapRemoveSegment st seg).segments i = 0 ∧
      (swapRemoveSegment st seg).segOutstanding i = 0 := by
  by_cases hlast : i = st.segmentCount - 1
  · subst hlast
    simp [swapRemoveSegment]
  · have his : i ≠ seg := by omega
    obtain ⟨hs, ho⟩ := hunused hlast
    by_cases heq : seg = st.segmentCount - 1
    · simp [swapRemoveSegment, heq, hlast, hs, ho]
    · simp [swapRemoveSegment, heq, hlast, his, hs, ho]

/-- Swap-removal leaves the lists and the carving range alone. -/
theorem swapRemoveSegment_lists (st : PoolState) (seg : ℕ) :
    (swapRemoveSegment st seg).dirtyList = st.dirtyList ∧
      (swapRemoveSegment st seg).cleanList = st.cleanList ∧
      (swapRemoveSegment st seg).segmentCursor = st.segmentCursor ∧
      (swapRemoveSegment st seg).segmentEnd = st.segmentEnd := by
  by_cases hlast : seg = st.segmentCount - 1 <;> simp [swapRemoveSegment, hlast]

/-- The index of the segment being carved follows it when it is the one that moves. -/
theorem swapRemoveSegment_carvingIdx (st : PoolState) {seg : ℕ}
    (hidx : st.carvingIdx < st.segmentCount) (hseg : seg < st.segmentCount)
    (hne : st.carvingIdx ≠ seg) :
    (swapRemoveSegment st seg).carvingIdx < st.segmentCount - 1 ∧
      swapIndex (st.segmentCount - 1) seg (swapRemoveSegment st seg).carvingIdx =
        st.carvingIdx := by
  have hcarving : (swapRemoveSegment st seg).carvingIdx =
      if seg ≠ st.segmentCount - 1 ∧ st.carvingIdx = st.segmentCount - 1 then seg
        else st.carvingIdx := by
    by_cases hlast : seg = st.segmentCount - 1 <;> simp [swapRemoveSegment, hlast]
  rw [hcarving, swapIndex]
  split_ifs <;> omega

/-- The map after releasing the segment at `base`: its whole range is outside. -/
def releaseKind (kind : ℕ → PageKind T) (base p : ℕ) : PageKind T :=
  if inSegment base p then .outside else kind p

/-- The pages of a registered segment are the known pages in its range. -/
theorem PoolInv.mem_segmentPages_iff (h : PoolInv st kind) {seg p : ℕ}
    (hseg : seg < st.segmentCount) :
    p ∈ segmentPages (st.segments seg) ↔ inSegment (st.segments seg) p = true ∧
      kind p ≠ .outside := by
  have hpages := mem_segmentPages (p := p) (h.base_aligned seg hseg)
  simp only [inSegment, Bool.and_eq_true, decide_eq_true_eq]
  constructor
  · intro hp
    exact ⟨⟨(hpages.mp hp).1, (hpages.mp hp).2.1⟩, (h.registered p).mpr ⟨seg, hseg, hp⟩⟩
  · rintro ⟨⟨hlo, hhi⟩, hkind⟩
    obtain ⟨i, hi, hp⟩ := (h.registered p).mp hkind
    exact hpages.mpr ⟨hlo, hhi, ((mem_segmentPages (h.base_aligned i hi)).mp hp).2.2⟩

/-- A segment without outstanding pages that the cursor is not in has all its pages on the two
lists. -/
theorem PoolInv.all_free (h : PoolInv st kind) {seg : ℕ} (hseg : seg < st.segmentCount)
    (hzero : st.segOutstanding seg = 0) (hcarved : segmentFullyCarved st seg = true) {p : ℕ}
    (hp : p ∈ segmentPages (st.segments seg)) : kind p = .dirty ∨ kind p = .clean := by
  have hout : (kind p).isOut = false := by
    have hcount := h.outstanding seg hseg
    rw [hzero, eq_comm, List.countP_eq_zero] at hcount
    simpa using hcount p hp
  cases hk : kind p with
  | outside => exact absurd hk ((h.registered p).mpr ⟨seg, hseg, hp⟩)
  | out tag => simp [hk, PageKind.isOut] at hout
  | dirty => exact .inl rfl
  | clean => exact .inr rfl
  | uncarved =>
    exfalso
    obtain ⟨hlo, hhi, -⟩ := (h.uncarved p).mpr hk
    have hcur : st.segmentCursor < st.segmentEnd := by omega
    obtain ⟨hidx, hbase, hend, -⟩ := h.carving hcur
    have hpc : p ∈ segmentPages (st.segments st.carvingIdx) :=
      (h.mem_segmentPages_iff hidx).mpr ⟨by simp [inSegment]; omega, by simp [hk]⟩
    have hsame := h.index_unique hseg hidx hp hpc
    subst hsame
    simp [segmentFullyCarved, inSegment] at hcarved
    omega

/-- A filtered list is keyed by the same kind in the map without the segment. -/
theorem mem_removeIf_iff {l : PageFreeList} {k : PageKind T} {base : ℕ} (hk : k ≠ .outside)
    (hl : ∀ p, p ∈ l.pages ↔ kind p = k) (hlen : l.len = l.pages.length) (p : ℕ) :
    p ∈ (l.removeIf (inSegment base)).pages ↔ releaseKind kind base p = k := by
  rw [(l.removeIf_spec _ hlen).1, List.mem_filter, hl p, releaseKind]
  by_cases hin : inSegment base p = true
  · simp [hin, hk.symm]
  · simp [hin]

/-- The pages of the other segments lie outside the released range. -/
theorem PoolInv.releaseKind_of_mem (h : PoolInv st kind) {i seg p : ℕ} (hi : i < st.segmentCount)
    (hseg : seg < st.segmentCount) (hne : i ≠ seg) (hp : p ∈ segmentPages (st.segments i)) :
    releaseKind kind (st.segments seg) p = kind p := by
  refine if_neg fun hin => hne ?_
  have hknown := ((h.mem_segmentPages_iff hi).mp hp).2
  exact h.index_unique hi hseg hp ((h.mem_segmentPages_iff hseg).mpr ⟨hin, hknown⟩)

/-- The known pages after a release are those of the segments that survive it. -/
theorem PoolInv.registered_release (h : PoolInv st kind) {seg : ℕ} (hseg : seg < st.segmentCount)
    (p : ℕ) :
    releaseKind kind (st.segments seg) p ≠ .outside ↔ ∃ i < st.segmentCount - 1,
      p ∈ segmentPages (st.segments (swapIndex (st.segmentCount - 1) seg i)) := by
  constructor
  · intro hp
    have hin : ¬inSegment (st.segments seg) p = true := fun hin => hp (if_pos hin)
    rw [releaseKind, if_neg hin] at hp
    obtain ⟨j, hj, hmem⟩ := (h.registered p).mp hp
    have hne : j ≠ seg := by
      rintro rfl
      exact hin ((h.mem_segmentPages_iff hj).mp hmem).1
    obtain ⟨i, hi, hij⟩ := exists_swapIndex hseg hj hne
    exact ⟨i, hi, hij.symm ▸ hmem⟩
  · rintro ⟨i, hi, hmem⟩
    obtain ⟨hlt, hne⟩ := swapIndex_lt seg hi
    rw [h.releaseKind_of_mem hlt hseg hne hmem]
    exact (h.registered p).mpr ⟨_, hlt, hmem⟩

/-- Taking a wholly free segment out of the lists and the table keeps the accounting. -/
theorem PoolInv.release (h : PoolInv st kind) {seg : ℕ} (hseg : seg < st.segmentCount)
    (hzero : st.segOutstanding seg = 0) (hcarved : segmentFullyCarved st seg = true) :
    PoolInv (swapRemoveSegment (removeSegmentSlabs st (st.segments seg)) seg)
      (releaseKind kind (st.segments seg)) := by
  obtain ⟨hdirty, hclean, hcursor, hend⟩ :=
    swapRemoveSegment_lists (removeSegmentSlabs st (st.segments seg)) seg
  have htable (i : ℕ) (hi : i < st.segmentCount - 1) :=
    swapRemoveSegment_table (removeSegmentSlabs st (st.segments seg)) seg hi
  have hcarving (hcur : st.segmentCursor < st.segmentEnd) : st.carvingIdx ≠ seg := by
    rintro rfl
    obtain ⟨-, hbase, hlast, -⟩ := h.carving hcur
    simp [segmentFullyCarved, inSegment] at hcarved
    omega
  refine
    { count_le := (Nat.sub_le _ _).trans h.count_le
      base_pos := fun i hi => ?_
      base_aligned := fun i hi => ?_
      disjoint := fun i hi j hj hne => ?_
      unused := fun i hi => swapRemoveSegment_unused seg i hi (fun hne => h.unused i ?_) hseg
      registered := fun p => ?_
      dirty := hdirty ▸ mem_removeIf_iff (by simp) h.dirty h.dirty_len
      dirty_nodup := ?_
      dirty_len := hdirty ▸ (st.dirtyList.removeIf_spec _ h.dirty_len).2
      clean := hclean ▸ mem_removeIf_iff (by simp) h.clean h.clean_len
      clean_nodup := ?_
      clean_len := hclean ▸ (st.cleanList.removeIf_spec _ h.clean_len).2
      uncarved := fun p => ?_
      carving := fun hcur => ?_
      outstanding := fun i hi => ?_ }
  · rw [(htable i hi).1]
    exact h.base_pos _ (swapIndex_lt seg hi).1
  · rw [(htable i hi).1]
    exact h.base_aligned _ (swapIndex_lt seg hi).1
  · rw [(htable i hi).1, (htable j hj).1]
    exact h.disjoint _ (swapIndex_lt seg hi).1 _ (swapIndex_lt seg hj).1 fun heq =>
      hne (swapIndex_injective hi hj heq)
  · change st.segmentCount - 1 ≤ i at hi
    change i ≠ st.segmentCount - 1 at hne
    omega
  · rw [h.registered_release hseg p]
    refine exists_congr fun i => and_congr_right fun hi => ?_
    rw [(htable i hi).1]
    rfl
  · rw [hdirty, removeSegmentSlabs, (st.dirtyList.removeIf_spec _ h.dirty_len).1]
    exact h.dirty_nodup.filter _
  · rw [hclean, removeSegmentSlabs, (st.cleanList.removeIf_spec _ h.clean_len).1]
    exact h.clean_nodup.filter _
  · rw [hcursor, hend]
    refine (h.uncarved p).trans ⟨fun hk => ?_, fun hk => ?_⟩
    · have hin : ¬inSegment (st.segments seg) p = true := fun hin => by
        have hp := (h.mem_segmentPages_iff hseg).mpr ⟨hin, by simp [hk]⟩
        simpa [hk] using h.all_free hseg hzero hcarved hp
      rwa [releaseKind, if_neg hin]
    · rw [releaseKind] at hk
      split at hk
      · cases hk
      · exact hk
  · rw [hcursor, hend] at hcur ⊢
    obtain ⟨hidx, hbase, hlast, hdvd⟩ := h.carving hcur
    obtain ⟨hlt, heq⟩ := swapRemoveSegment_carvingIdx
      (removeSegmentSlabs st (st.segments seg)) hidx hseg (hcarving hcur)
    have hsame := (htable _ hlt).1
    rw [heq] at hsame
    rw [hsame]
    exact ⟨hlt, hbase, hlast, hdvd⟩
  · rw [(htable i hi).1, (htable i hi).2]
    obtain ⟨hlt, hne⟩ := swapIndex_lt seg hi
    refine (h.outstanding _ hlt).trans (countP_eq_of_agree fun p hp => ?_).symm
    rw [h.releaseKind_of_mem hlt hseg hne hp]

/-- The segments registered after a release are those before it but the released one. -/
structure Removed (st st' : PoolState) (seg : ℕ) : Prop where
  count : st'.segmentCount + 1 = st.segmentCount
  old : ∀ i < st'.segmentCount, ∃ j < st.segmentCount, j ≠ seg ∧ st'.segments i = st.segments j
  kept : ∀ j < st.segmentCount, j ≠ seg → ∃ i < st'.segmentCount, st'.segments i = st.segments j
  cursor : st'.segmentCursor = st.segmentCursor
  rangeEnd : st'.segmentEnd = st.segmentEnd

/-- The state of `dealloc_slab` once the page is on the dirty list and uncounted. -/
def returnedPage (st : PoolState) (slab seg : ℕ) : PoolState :=
  { ({ st.countLock with dirtyList := st.dirtyList.push slab } : PoolState).decOutstanding seg with
    outstandingSlabs := st.outstandingSlabs - 1 }

/-- The rest of `dealloc_slab` after the page's segment is found. -/
theorem deallocSlabLocked_eq {slab seg : ℕ}
    (hfind : findSegment { st.countLock with
      dirtyList := st.dirtyList.push slab } slab = some seg) :
    deallocSlabLocked st slab =
      if (returnedPage st slab seg).segOutstanding seg = 0 ∧
          segmentFullyCarved (returnedPage st slab seg) seg = true then
        let removed := swapRemoveSegment
          (removeSegmentSlabs (returnedPage st slab seg) (st.segments seg)) seg
        some ({ removed with
          metrics := { removed.metrics with
            segmentMunmapCount := removed.metrics.segmentMunmapCount + 1 } },
          .release (st.segments seg))
      else if purgeHighWater < (returnedPage st slab seg).dirtyList.len then
        some (returnedPage st slab seg, .purge)
      else some (returnedPage st slab seg, .done) := by
  unfold deallocSlabLocked
  simp only [hfind]
  rfl

/-- Returning the page on the dirty list keeps the accounting. -/
theorem PoolInv.returned (h : PoolInv st kind) {slab seg : ℕ} {tag : T}
    (hkind : kind slab = .out tag) (hseg : seg < st.segmentCount)
    (hslab : slab ∈ segmentPages (st.segments seg)) :
    PoolInv (returnedPage st slab seg) (Function.update kind slab .dirty) :=
  (h.putDirty hkind hseg hslab).withCounters _ _ _

/-- Swap-removing position `seg` removes exactly that segment. -/
theorem removed_swapRemoveSegment (st : PoolState) {seg : ℕ} (hseg : seg < st.segmentCount) :
    Removed st (swapRemoveSegment st seg) seg where
  count := by
    change st.segmentCount - 1 + 1 = st.segmentCount
    omega
  old := fun i hi =>
    ⟨_, (swapIndex_lt seg hi).1, (swapIndex_lt seg hi).2, (swapRemoveSegment_table st seg hi).1⟩
  kept := fun j hj hne => by
    obtain ⟨i, hi, hij⟩ := exists_swapIndex hseg hj hne
    exact ⟨i, hi, hij ▸ (swapRemoveSegment_table st seg hi).1⟩
  cursor := (swapRemoveSegment_lists st seg).2.2.1
  rangeEnd := (swapRemoveSegment_lists st seg).2.2.2

/-- `dealloc_slab` returns the page, and releases its segment when nothing else of it is
outstanding. -/
theorem deallocSlabLocked_spec (h : PoolInv st kind) {slab : ℕ} {tag : T}
    (hkind : kind slab = .out tag) :
    ∃ seg st', seg < st.segmentCount ∧ slab ∈ segmentPages (st.segments seg) ∧
      ((deallocSlabLocked st slab = some (st', .release (st.segments seg)) ∧
          PoolInv st' (releaseKind kind (st.segments seg)) ∧ Removed st st' seg ∧
          (∀ p ∈ segmentPages (st.segments seg), p ≠ slab → kind p = .dirty ∨ kind p = .clean) ∧
          inSegment (st.segments seg) st.segmentCursor = false) ∨
        (∃ outcome, deallocSlabLocked st slab = some (st', outcome) ∧ (∀ b, outcome ≠ .release b) ∧
          PoolInv st' (Function.update kind slab .dirty) ∧ SameTable st st' ∧
          (0 < st'.segOutstanding seg ∨ inSegment (st.segments seg) st.segmentCursor = true))) := by
  obtain ⟨seg, hseg, hmem⟩ := h.exists_segment (p := slab) (by simp [hkind])
  have heq := deallocSlabLocked_eq (h.findSegment_eq
    { st.countLock with dirtyList := st.dirtyList.push slab } rfl rfl hseg hmem)
  have hret := h.returned hkind hseg hmem
  have hcarved : segmentFullyCarved (returnedPage st slab seg) seg =
      !inSegment (st.segments seg) st.segmentCursor := rfl
  by_cases hrel : (returnedPage st slab seg).segOutstanding seg = 0 ∧
      segmentFullyCarved (returnedPage st slab seg) seg = true
  · rw [if_pos hrel] at heq
    have hremoved := removed_swapRemoveSegment
      (removeSegmentSlabs (returnedPage st slab seg) (st.segments seg)) hseg
    refine ⟨seg, _, hseg, hmem, .inl ⟨heq, ?_,
      ⟨hremoved.count, hremoved.old, hremoved.kept, hremoved.cursor, hremoved.rangeEnd⟩, ?_, ?_⟩⟩
    · have hmap : releaseKind (Function.update kind slab .dirty) (st.segments seg) =
          releaseKind kind (st.segments seg) := by
        funext p
        unfold releaseKind
        split
        · rfl
        · rename_i hin
          rw [Function.update_of_ne]
          rintro rfl
          exact hin ((h.mem_segmentPages_iff hseg).mp hmem).1
      rw [← hmap]
      exact (hret.release hseg hrel.1 hrel.2).withCounters _ _ _
    · intro p hp hne
      have hfree := hret.all_free hseg hrel.1 hrel.2 hp
      rwa [Function.update_of_ne hne] at hfree
    · simpa [hcarved] using hrel.2
  · rw [if_neg hrel] at heq
    have hkeep : 0 < (returnedPage st slab seg).segOutstanding seg ∨
        inSegment (st.segments seg) st.segmentCursor = true := by
      rcases Nat.eq_zero_or_pos ((returnedPage st slab seg).segOutstanding seg) with hz | hp
      · right
        by_contra hin
        exact hrel ⟨hz, by simpa [hcarved] using hin⟩
      · exact .inl hp
    have hsame : SameTable st (returnedPage st slab seg) := ⟨rfl, rfl, rfl, rfl⟩
    refine ⟨seg, returnedPage st slab seg, hseg, hmem, .inr ?_⟩
    by_cases hpurge : purgeHighWater < (returnedPage st slab seg).dirtyList.len
    · rw [if_pos hpurge] at heq
      exact ⟨.purge, heq, by simp, hret, hsame, hkeep⟩
    · rw [if_neg hpurge] at heq
      exact ⟨.done, heq, by simp, hret, hsame, hkeep⟩

end ClMalloc
