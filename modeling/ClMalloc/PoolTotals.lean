import ClMalloc.PoolRelease
import Mathlib.Algebra.BigOperators.Group.Finset.Basic
import Mathlib.Algebra.Order.BigOperators.Group.Finset

/-!
# The sum of the outstanding counters

Every outstanding page is counted in exactly one entry of `seg_outstanding`, so the sum of
the entries bounds any list of different outstanding pages. One lemma for each critical
section says how it changes the sum and the gauges kept beside it.
-/

namespace ClMalloc

open Intrusive

/-- The sum of `seg_outstanding` over the registered segments. -/
def PoolState.outstandingTotal (st : PoolState) : ℕ :=
  ∑ i ∈ Finset.range st.segmentCount, st.segOutstanding i

/-- The pages of all registered segments. -/
def PoolState.registeredPages (st : PoolState) : List ℕ :=
  (List.range st.segmentCount).flatMap fun i => segmentPages (st.segments i)

variable {T : Type} {st st' : PoolState} {kind : ℕ → PageKind T} {seg : ℕ}

/-- The registered pages are those the map places. -/
theorem PoolInv.mem_registeredPages (h : PoolInv st kind) (p : ℕ) :
    p ∈ st.registeredPages ↔ kind p ≠ .outside := by
  simp [PoolState.registeredPages, h.registered p]

/-- The sum counts the outstanding pages. -/
theorem PoolInv.outstandingTotal_eq (h : PoolInv st kind) :
    st.outstandingTotal = st.registeredPages.countP fun p => (kind p).isOut := by
  rw [PoolState.outstandingTotal, PoolState.registeredPages, List.countP_flatMap,
    Finset.sum_congr rfl fun i hi =>
    h.outstanding i (Finset.mem_range.mp hi)]
  rfl

/-- Different outstanding pages are at most as many as the sum says. -/
theorem PoolInv.length_le_outstandingTotal (h : PoolInv st kind) {pages : List ℕ}
    (hnodup : pages.Nodup) (hout : ∀ p ∈ pages, (kind p).isOut = true) :
    pages.length ≤ st.outstandingTotal := by
  rw [h.outstandingTotal_eq, List.countP_eq_length_filter]
  refine (List.subperm_of_subset hnodup fun p hp => ?_).length_le
  rw [List.mem_filter, h.mem_registeredPages]
  refine ⟨fun houtside => ?_, hout p hp⟩
  have hp' := hout p hp
  simp [houtside, PageKind.isOut] at hp'

/-- At most thirty-two pages of a segment are outstanding. -/
theorem PoolInv.segOutstanding_le (h : PoolInv st kind) (hseg : seg < st.segmentCount) :
    st.segOutstanding seg ≤ 32 := by
  rw [h.outstanding seg hseg, ← segmentPages_length (st.segments seg)]
  exact List.countP_le_length

/-- The sum is bounded by the capacity of the table. -/
theorem PoolInv.outstandingTotal_le (h : PoolInv st kind) : st.outstandingTotal ≤ 0x20000 := by
  calc st.outstandingTotal ≤ ∑ _i ∈ Finset.range st.segmentCount, 32 :=
        Finset.sum_le_sum fun i hi => h.segOutstanding_le (Finset.mem_range.mp hi)
    _ = st.segmentCount * 32 := by rw [Finset.sum_const_nat fun _ _ => rfl, Finset.card_range]
    _ ≤ 0x20000 := by
      have hcount := h.count_le
      unfold maxSegments at hcount
      omega

/-- An outstanding page is counted in the entry of its segment. -/
theorem PoolInv.segOutstanding_pos (h : PoolInv st kind) (hseg : seg < st.segmentCount) {slab : ℕ}
    {tag : T} (hkind : kind slab = .out tag) (hslab : slab ∈ segmentPages (st.segments seg)) :
    0 < st.segOutstanding seg := by
  rw [h.outstanding seg hseg, List.countP_pos_iff]
  exact ⟨slab, hslab, by rw [hkind]; rfl⟩

/-- A segment the search finds is registered. -/
theorem findSegment_lt {addr : ℕ} (hfind : findSegment st addr = some seg) :
    seg < st.segmentCount :=
  List.mem_range.mp (List.mem_of_find?_eq_some hfind)

/-- The sum reads the counters and their number only. -/
theorem PoolState.outstandingTotal_congr (hcount : st'.segmentCount = st.segmentCount)
    (hout : st'.segOutstanding = st.segOutstanding) :
    st'.outstandingTotal = st.outstandingTotal := by
  rw [PoolState.outstandingTotal, PoolState.outstandingTotal, hcount, hout]

/-- Changing one counter changes the sum by as much. -/
theorem PoolState.outstandingTotal_update (hseg : seg < st.segmentCount) (n : ℕ) :
    PoolState.outstandingTotal { st with
      segOutstanding := Function.update st.segOutstanding seg n } +
      st.segOutstanding seg = st.outstandingTotal + n := by
  have hmem : seg ∈ Finset.range st.segmentCount := Finset.mem_range.mpr hseg
  have hold := Finset.add_sum_erase (Finset.range st.segmentCount) st.segOutstanding hmem
  have hnew := Finset.add_sum_erase (Finset.range st.segmentCount)
    (Function.update st.segOutstanding seg n) hmem
  have hsame : ∑ i ∈ (Finset.range st.segmentCount).erase seg,
      Function.update st.segOutstanding seg n i =
      ∑ i ∈ (Finset.range st.segmentCount).erase seg, st.segOutstanding i :=
    Finset.sum_congr rfl fun i hi => Function.update_of_ne (Finset.ne_of_mem_erase hi) _ _
  rw [Function.update_self, hsame] at hnew
  unfold PoolState.outstandingTotal
  simp only
  omega

/-- Counting one more page of a segment adds one. -/
theorem PoolState.outstandingTotal_inc (st : PoolState) (hseg : seg < st.segmentCount)
    (hle : st.segOutstanding seg ≤ 32) :
    (st.incOutstanding seg).outstandingTotal = st.outstandingTotal + 1 := by
  have hsum := PoolState.outstandingTotal_update hseg (u8Inc (st.segOutstanding seg))
  rw [show u8Inc (st.segOutstanding seg) = st.segOutstanding seg + 1 from Nat.mod_eq_of_lt
    (by omega)] at hsum
  rw [PoolState.incOutstanding, show u8Inc (st.segOutstanding seg) = st.segOutstanding seg + 1 from
    Nat.mod_eq_of_lt (by omega)]
  omega

/-- Counting one page of a segment less subtracts one. -/
theorem PoolState.outstandingTotal_dec (st : PoolState) (hseg : seg < st.segmentCount)
    (hle : st.segOutstanding seg ≤ 32) (hpos : 0 < st.segOutstanding seg) :
    (st.decOutstanding seg).outstandingTotal + 1 = st.outstandingTotal := by
  have hdec : u8Dec (st.segOutstanding seg) = st.segOutstanding seg - 1 := by
    unfold u8Dec
    omega
  have hsum := PoolState.outstandingTotal_update hseg (u8Dec (st.segOutstanding seg))
  rw [hdec] at hsum
  rw [PoolState.decOutstanding, hdec]
  omega

/-- Swap-removing a segment takes its counter out of the sum. -/
theorem outstandingTotal_swapRemoveSegment (st : PoolState) (hseg : seg < st.segmentCount) :
    (swapRemoveSegment st seg).outstandingTotal + st.segOutstanding seg = st.outstandingTotal := by
  have hcount : (swapRemoveSegment st seg).segmentCount = st.segmentCount - 1 := by
    unfold swapRemoveSegment
    simp only
  obtain ⟨last, hlast⟩ : ∃ last, st.segmentCount = last + 1 := ⟨st.segmentCount - 1, by omega⟩
  have htable (i : ℕ) (hi : i < last) : (swapRemoveSegment st seg).segOutstanding i =
      st.segOutstanding (swapIndex last seg i) := by
    have hread := (swapRemoveSegment_table st seg (i := i) (by omega)).2
    rwa [show st.segmentCount - 1 = last by omega] at hread
  unfold PoolState.outstandingTotal
  rw [hcount, hlast, Nat.add_sub_cancel,
    Finset.sum_congr rfl fun i hi => htable i (Finset.mem_range.mp hi), Finset.sum_range_succ]
  by_cases hself : seg = last
  · rw [hself]
    congr 1
    refine Finset.sum_congr rfl fun i hi => ?_
    have := Finset.mem_range.mp hi
    rw [swapIndex, if_neg (by omega)]
  · -- the last counter takes the place of the removed one
    have hmem : seg ∈ Finset.range last := Finset.mem_range.mpr (by omega)
    rw [← Finset.add_sum_erase _ _ hmem, ← Finset.add_sum_erase _ st.segOutstanding hmem]
    have hrest : ∑ i ∈ (Finset.range last).erase seg, st.segOutstanding (swapIndex last seg i) =
        ∑ i ∈ (Finset.range last).erase seg, st.segOutstanding i := by
      refine Finset.sum_congr rfl fun i hi => ?_
      rw [swapIndex, if_neg (Finset.ne_of_mem_erase hi)]
    rw [hrest, swapIndex, if_pos rfl]
    omega

end ClMalloc
