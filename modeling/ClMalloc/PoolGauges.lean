import ClMalloc.PoolTotals
import ClMalloc.PoolCoreInvariant
import ClMalloc.Lib.Tally

/-!
# The gauges kept beside the pool's state

`outstanding_slabs` counts the pages handed out, which are those that `seg_outstanding`
counts less those in purge buffers; `large_mapped_bytes` sums the large regions in use;
mapped segments less unmapped ones are the registered ones, except that the path of
`alloc_slab_slow` that finds the table full counts the mapping of a segment it gives back.
One lemma for each critical section says how it changes the gauges.
-/

namespace ClMalloc

open Intrusive Tally

/-- Segments counted as mapped, less those counted as unmapped and those registered. -/
def PoolState.mapBalance (st : PoolState) : ℤ :=
  st.metrics.segmentMmapCount - st.metrics.segmentMunmapCount - st.segmentCount

/-- The gauges that the sections on pages do not touch. -/
structure SameGauges (st st' : PoolState) : Prop where
  large : st'.largeMappedBytes = st.largeMappedBytes
  abandonCount : st'.metrics.abandonCount = st.metrics.abandonCount
  adoptCount : st'.metrics.adoptCount = st.metrics.adoptCount

variable {T : Type} {st st' : PoolState} {kind : ℕ → PageKind T} {seg slab : ℕ} {result : Option ℕ}

/-- Popping a free page changes its list only. -/
theorem popFree_gauges (hpop : popFree st = some (slab, st')) :
    SameGauges st st' ∧ st'.mapBalance = st.mapBalance ∧ st'.segmentCount = st.segmentCount ∧
      st'.segOutstanding = st.segOutstanding ∧ st'.outstandingSlabs = st.outstandingSlabs := by
  unfold popFree at hpop
  split at hpop
  · cases hpop
    exact ⟨⟨rfl, rfl, rfl⟩, rfl, rfl, rfl, rfl⟩
  · split at hpop <;> cases hpop
    exact ⟨⟨rfl, rfl, rfl⟩, rfl, rfl, rfl, rfl⟩

/-- `alloc_slab` counts the page it hands out, if any. -/
theorem allocSlabLocked_gauges (h : PoolInv st kind)
    (heq : allocSlabLocked st = some (st', result)) :
    SameGauges st st' ∧ st'.mapBalance = st.mapBalance ∧
      st'.outstandingTotal = st.outstandingTotal + result.toList.length ∧
      st'.outstandingSlabs = st.outstandingSlabs + result.toList.length := by
  unfold allocSlabLocked at heq
  split at heq
  case h_1 slab popped hpop =>
    obtain ⟨hgauges, hbalance, hcount, hout, hslabs⟩ := popFree_gauges hpop
    split at heq <;> try contradiction
    case h_1 seg hfind =>
      cases heq
      have hseg : seg < popped.segmentCount := findSegment_lt hfind
      have hle : popped.segOutstanding seg ≤ 32 := by
        rw [hout]
        exact h.segOutstanding_le (hcount ▸ hseg)
      refine ⟨⟨hgauges.large, hgauges.abandonCount, hgauges.adoptCount⟩, hbalance, ?_, ?_⟩
      · exact (PoolState.outstandingTotal_inc _ hseg hle).trans
          (congrArg (· + 1) (PoolState.outstandingTotal_congr hcount hout))
      · exact congrArg (· + 1) hslabs
  case h_2 =>
    simp only at heq
    split at heq
    case isTrue hcur =>
      cases heq
      obtain ⟨hidx, -⟩ := h.carving hcur
      exact ⟨⟨rfl, rfl, rfl⟩, rfl, PoolState.outstandingTotal_inc st hidx
        (h.segOutstanding_le hidx), rfl⟩
    case isFalse =>
      cases heq
      exact ⟨⟨rfl, rfl, rfl⟩, rfl, rfl, rfl⟩

/-- A new segment is appended with its first page counted. -/
theorem PoolState.outstandingTotal_append (hcount : st'.segmentCount = st.segmentCount + 1)
    (hout : st'.segOutstanding = Function.update st.segOutstanding st.segmentCount 1) :
    st'.outstandingTotal = st.outstandingTotal + 1 := by
  have hsame : ∑ i ∈ Finset.range st.segmentCount,
      Function.update st.segOutstanding st.segmentCount 1 i =
      ∑ i ∈ Finset.range st.segmentCount, st.segOutstanding i :=
    Finset.sum_congr rfl fun i hi => Function.update_of_ne (Finset.mem_range.mp hi).ne _ _
  rw [PoolState.outstandingTotal, hcount, hout, Finset.sum_range_succ, Function.update_self, hsame]
  rfl

/-- `alloc_slab_slow` counts the page it hands out; it counts a mapping also when it gives the
segment back. -/
theorem allocSlabSlowLocked_gauges {base : ℕ} (heq : allocSlabSlowLocked st base = (st', result)) :
    SameGauges st st' ∧ st'.mapBalance = st.mapBalance + (if maxSegments ≤ st.segmentCount then 1
      else 0) ∧
      st'.outstandingTotal = st.outstandingTotal + result.toList.length ∧
      st'.outstandingSlabs = st.outstandingSlabs + result.toList.length := by
  unfold allocSlabSlowLocked at heq
  simp only at heq
  split at heq
  case isTrue hfull =>
    cases heq
    have hfull' : maxSegments ≤ st.segmentCount := hfull
    refine ⟨⟨rfl, rfl, rfl⟩, ?_, rfl, rfl⟩
    rw [if_pos hfull']
    simp only [PoolState.mapBalance, PoolState.countLock]
    omega
  case isFalse hroom =>
    have hroom' : ¬maxSegments ≤ st.segmentCount := hroom
    rw [if_neg hroom']
    split at heq
    all_goals
      cases heq
      refine ⟨⟨rfl, rfl, rfl⟩, ?_, PoolState.outstandingTotal_append rfl rfl, rfl⟩
      simp only [PoolState.mapBalance, PoolState.countLock]
      omega

/-- Swap-removing a segment shortens the table and leaves every other gauge. -/
theorem swapRemoveSegment_gauges (st : PoolState) (seg : ℕ) :
    SameGauges st (swapRemoveSegment st seg) ∧
      (swapRemoveSegment st seg).segmentCount = st.segmentCount - 1 ∧
      (swapRemoveSegment st seg).outstandingSlabs = st.outstandingSlabs ∧
      (swapRemoveSegment st seg).metrics = st.metrics := by
  refine ⟨?_, rfl, ?_, ?_⟩
  all_goals
    unfold swapRemoveSegment
    simp only
    split
    all_goals first | exact ⟨rfl, rfl, rfl⟩ | rfl

/-- `dealloc_slab` counts the page as returned; a segment it releases is counted as unmapped. -/
theorem deallocSlabLocked_gauges (h : PoolInv st kind) {tag : T} (hkind : kind slab = .out tag)
    {outcome : DeallocOutcome} (heq : deallocSlabLocked st slab = some (st', outcome)) :
    SameGauges st st' ∧ st'.mapBalance = st.mapBalance ∧
      st'.outstandingTotal + 1 = st.outstandingTotal ∧
      st'.outstandingSlabs = st.outstandingSlabs - 1 := by
  obtain ⟨seg, hseg, hmem⟩ := h.exists_segment (p := slab) (by simp [hkind])
  rw [deallocSlabLocked_eq (h.findSegment_eq { st.countLock with
    dirtyList := st.dirtyList.push slab }
    rfl rfl hseg hmem)] at heq
  have hdec : (returnedPage st slab seg).outstandingTotal + 1 = st.outstandingTotal :=
    PoolState.outstandingTotal_dec st hseg (h.segOutstanding_le hseg)
      (h.segOutstanding_pos hseg hkind hmem)
  split at heq
  case isTrue hrelease =>
    cases heq
    have hremoved := outstandingTotal_swapRemoveSegment
      (removeSegmentSlabs (returnedPage st slab seg) (st.segments seg)) hseg
    rw [show (removeSegmentSlabs (returnedPage st slab seg) (st.segments seg)).segOutstanding seg =
      0 from hrelease.1] at hremoved
    obtain ⟨hgauges, hcount, hslabs, hmetrics⟩ :=
      swapRemoveSegment_gauges (removeSegmentSlabs (returnedPage st slab seg) (st.segments seg)) seg
    refine ⟨⟨hgauges.large, hgauges.abandonCount, hgauges.adoptCount⟩, ?_, ?_, hslabs⟩
    · have hcount' : (removeSegmentSlabs (returnedPage st slab seg)
          (st.segments seg)).segmentCount =
        st.segmentCount := rfl
      have hmetrics' : (removeSegmentSlabs (returnedPage st slab seg) (st.segments seg)).metrics =
        st.countLock.metrics := rfl
      simp only [PoolState.mapBalance, hmetrics, hmetrics', hcount, hcount', PoolState.countLock]
      omega
    · exact (congrArg (· + 1) hremoved).trans hdec
  case isFalse =>
    split at heq
    all_goals
      cases heq
      exact ⟨⟨rfl, rfl, rfl⟩, rfl, hdec, rfl⟩

/-- The first section of `purge_excess` counts the pages it moves to the buffer as outstanding, not
as handed out. -/
theorem purgeTakeLoop_gauges (h : PoolInv st kind) (tag : T) {room : ℕ} {buf buf' : List ℕ}
    (heq : purgeTakeLoop room st buf = some (st', buf')) :
    SameGauges st st' ∧ st'.mapBalance = st.mapBalance ∧
      st'.outstandingTotal + buf.length = st.outstandingTotal + buf'.length ∧
      st'.outstandingSlabs = st.outstandingSlabs := by
  induction room generalizing st kind buf with
  | zero =>
    cases heq
    exact ⟨⟨rfl, rfl, rfl⟩, rfl, rfl, rfl⟩
  | succ room ih =>
    rw [purgeTakeLoop] at heq
    split at heq
    · cases hd : st.dirtyList.pages with
      | nil =>
        simp only [PageFreeList.pop, hd] at heq
        cases heq
        exact ⟨⟨rfl, rfl, rfl⟩, rfl, rfl, rfl⟩
      | cons slab rest =>
        have hkind : kind slab = .dirty := (h.dirty slab).mp (by simp [hd])
        obtain ⟨i, hi, hmem⟩ := h.exists_segment (p := slab) (by simp [hkind])
        have hfind := h.findSegment_eq ({ st with
          dirtyList := ⟨rest, st.dirtyList.len - 1⟩ }) rfl rfl hi hmem
        simp only [PageFreeList.pop, hd, hfind] at heq
        obtain ⟨hgauges, hbalance, htotal, hslabs⟩ := ih (h.takeDirty tag hd hi hmem) heq
        have hinc := PoolState.outstandingTotal_inc { st with
          dirtyList := ⟨rest, st.dirtyList.len - 1⟩ } hi (h.segOutstanding_le hi)
        have hsame : PoolState.outstandingTotal { st with
            dirtyList := ⟨rest, st.dirtyList.len - 1⟩ } = st.outstandingTotal := rfl
        rw [List.length_append, List.length_singleton] at htotal
        refine ⟨⟨hgauges.large, hgauges.abandonCount, hgauges.adoptCount⟩, hbalance, ?_, hslabs⟩
        omega
    · cases heq
      exact ⟨⟨rfl, rfl, rfl⟩, rfl, rfl, rfl⟩

/-- The second section of `purge_excess` counts the pages of the buffer as free again. -/
theorem purgeReturnLoop_gauges (h : PoolInv st kind) {buf : List ℕ} (hnodup : buf.Nodup)
    (hout : ∀ p ∈ buf, ∃ tag, kind p = .out tag) (heq : purgeReturnLoop buf st = some st') :
    SameGauges st st' ∧ st'.mapBalance = st.mapBalance ∧
      st'.outstandingTotal + buf.length = st.outstandingTotal ∧
      st'.outstandingSlabs = st.outstandingSlabs := by
  induction buf generalizing st kind with
  | nil =>
    cases heq
    exact ⟨⟨rfl, rfl, rfl⟩, rfl, rfl, rfl⟩
  | cons slab rest ih =>
    obtain ⟨hnew, hrest⟩ := List.nodup_cons.mp hnodup
    obtain ⟨tag, hkind⟩ := hout slab List.mem_cons_self
    obtain ⟨i, hi, hmem⟩ := h.exists_segment (p := slab) (by simp [hkind])
    simp only [purgeReturnLoop, h.findSegment_eq _ rfl rfl hi hmem] at heq
    obtain ⟨hgauges, hbalance, htotal, hslabs⟩ :=
      ih (h.putClean hkind hi hmem) hrest (fun p hp => by
      rw [Function.update_of_ne (ne_of_mem_of_not_mem hp hnew)]
      exact hout p (List.mem_cons_of_mem _ hp)) heq
    have hdec := PoolState.outstandingTotal_dec _ hi (h.segOutstanding_le hi)
      (h.segOutstanding_pos hi hkind hmem)
    have hsame : PoolState.outstandingTotal { st.decOutstanding i with
        cleanList := st.cleanList.push slab } = (st.decOutstanding i).outstandingTotal := rfl
    rw [List.length_cons]
    refine ⟨⟨hgauges.large, hgauges.abandonCount, hgauges.adoptCount⟩, hbalance, ?_, hslabs⟩
    have htotal' : st'.outstandingTotal + rest.length = (st.decOutstanding i).outstandingTotal :=
      htotal
    omega

/-- What a step does to the data behind the lock, to where its thread is, and to the large regions
in use. -/
inductive PoolEffect (c : PoolCore) : PoolLabel → PoolState → PoolCall → List (ℕ × ℕ) → Prop
  | allocSlab {t : ℕ} {pool : PoolState} {result : Option ℕ}
      {call : PoolCall} (hcall : c.call t = .idle)
    (h : allocSlabLocked c.pool = some (pool, result)) (hcall' : call.buffer = []) :
    PoolEffect c (.allocSlab t) pool call c.large
  | allocSlabSlow {t base : ℕ} {pool : PoolState} {result : Option ℕ} {call : PoolCall}
      (hcall : c.call t = .mapped base)
    (h : allocSlabSlowLocked c.pool base = (pool, result)) (hcall' : call.buffer = []) :
    PoolEffect c (.allocSlabSlow t) pool call c.large
  | deallocSlab {t page : ℕ} {pool : PoolState} {outcome : DeallocOutcome}
      {call : PoolCall} (hcall : c.call t = .idle)
    (hpage : page ∈ c.owned t) (h : deallocSlabLocked c.pool page = some (pool, outcome))
    (hcall' : call.buffer = []) :
    PoolEffect c (.deallocSlab t page) pool call c.large
  | purgeTake {t : ℕ} {pool : PoolState} {buf : List ℕ} (hcall : c.call t = .purging)
    (h : purgeTakeLocked c.pool = some (pool, buf)) :
    PoolEffect c (.purgeTake t) pool (.purged buf buf) c.large
  | purgeReturn {t : ℕ} {pool : PoolState} {buf : List ℕ} (hcall : c.call t = .purged [] buf)
    (h : purgeReturnLocked c.pool buf = some pool) :
    PoolEffect c (.purgeReturn t) pool .idle c.large
  | allocLarge {t base size : ℕ} (hcall : c.call t = .largeMapped base size) :
    PoolEffect c (.allocLarge t) (allocLargeLocked c.pool size) .idle ((base, size) :: c.large)
  | deallocLarge {t base size : ℕ} (hcall : c.call t = .idle) (hlarge : (base, size) ∈ c.large) :
    PoolEffect c (.deallocLarge t base size) (deallocLargeLocked c.pool size)
      (.largeFreeing base size) (c.large.erase (base, size))
  | unlocked {l : PoolLabel} {call : PoolCall} (hcall : call.buffer = (c.call l.thread).buffer) :
    PoolEffect c l c.pool call c.large

variable {c c' : PoolCore} {l : PoolLabel}

/-- Every step has one of the effects. -/
theorem poolStep_effect (hstep : poolStep c l = some c') :
    PoolEffect c l c'.pool (c'.call l.thread) c'.large := by
  have hset (k : PoolCall) (d : PoolCore) (t : ℕ) : (d.setCall t k).call t = k := by
    simp [PoolCore.setCall]
  cases poolStep_cases hstep with
  | allocSlab hcall h =>
    exact .allocSlab hcall h (by simp [PoolCore.give, PoolLabel.thread, hcall, PoolCall.buffer])
  | allocSlabNone hcall h =>
    rw [PoolLabel.thread, hset]
    exact .allocSlab hcall h rfl
  | osRefuse hcall => exact .unlocked (by rw [PoolLabel.thread, hset, hcall]; rfl)
  | osAlloc hcall hanswer => exact .unlocked (by rw [PoolLabel.thread, hset, hcall]; rfl)
  | allocSlabSlow hcall h =>
    rw [PoolLabel.thread, hset]
    exact .allocSlabSlow hcall h rfl
  | allocSlabSlowNone hcall h =>
    rw [PoolLabel.thread, hset]
    exact .allocSlabSlow hcall h rfl
  | osDealloc hreturning =>
    refine .unlocked ?_
    rw [PoolLabel.thread, PoolCore.osDealloc, hset, PoolCall.buffer_of_returning hreturning]
    rfl
  | @deallocSlab t page pool outcome hcall hpage h =>
    rw [PoolLabel.thread, hset]
    exact .deallocSlab hcall hpage h (by cases outcome <;> rfl)
  | purgeTake hcall h =>
    rw [PoolLabel.thread, hset]
    exact .purgeTake hcall h
  | purgePage hcall => exact .unlocked (by rw [PoolLabel.thread, hset, hcall]; rfl)
  | purgeReturn hcall h =>
    rw [PoolLabel.thread, hset]
    exact .purgeReturn hcall h
  | osRefuseLarge hcall => exact .unlocked rfl
  | osAllocLarge hcall hsize hanswer => exact .unlocked (by rw [PoolLabel.thread, hset, hcall]; rfl)
  | allocLarge hcall =>
    rw [PoolLabel.thread, PoolCore.allocLarge, hset]
    exact .allocLarge hcall
  | deallocLarge hcall hlarge =>
    rw [PoolLabel.thread, PoolCore.deallocLarge, hset]
    exact .deallocLarge hcall hlarge

/-- The gauges agree with the pages out of the pool, those in purge buffers, and the large
regions. -/
structure CoreGauges (c : PoolCore) (buffered : ℕ) : Prop where
  buffers : SumsTo (fun t => (c.call t).buffer.length) buffered
  slabs : c.pool.outstandingSlabs + buffered = c.pool.outstandingTotal
  large : c.pool.largeMappedBytes = (c.large.map Prod.snd).sum

/-- The gauges of a new pool. -/
theorem coreGauges_new : CoreGauges PoolCore.new 0 where
  buffers := sumsTo_zero
  slabs := rfl
  large := rfl

variable {X : Type} {extra : X → List ℕ} {kindC : ℕ → PageKind (Tag X)} {buffered : ℕ}

/-- While a thread holds a page the buffers do not hold all outstanding pages. -/
theorem CoreInv.buffered_lt (h : CoreInv c extra kindC)
    (hbuffers : SumsTo (fun t => (c.call t).buffer.length) buffered) {t page : ℕ}
    (hpage : page ∈ c.owned t) : buffered < c.pool.outstandingTotal := by
  obtain ⟨support, -, rfl⟩ := hbuffers
  let buffer := fun t => (c.call t).buffer
  have hmem {t p : ℕ} : p ∈ buffer t ↔ kindC p = .out (.buffer t) := (h.keyed (.buffer t)).1 p
  have hkind : kindC page = .out (.owned t) := ((h.keyed (.owned t)).1 page).mp hpage
  have hnodup : (page :: support.toList.flatMap buffer).Nodup := by
    refine List.nodup_cons.mpr ⟨fun hin => ?_,
      List.nodup_flatMap.mpr ⟨fun t _ => (h.keyed (.buffer t)).2, ?_⟩⟩
    · obtain ⟨t', -, hp⟩ := List.mem_flatMap.mp hin
      rw [hmem, hkind] at hp
      cases hp
    · refine (Finset.nodup_toList support).imp fun {a b} hab p hp hp' => ?_
      rw [hmem] at hp hp'
      rw [hp] at hp'
      cases hp'
      exact hab rfl
  have hout : ∀ p ∈ page :: support.toList.flatMap buffer, (kindC p).isOut = true := by
    intro p hp
    rcases List.mem_cons.mp hp with rfl | hp
    · rw [hkind]
      rfl
    · obtain ⟨t', -, hp⟩ := List.mem_flatMap.mp hp
      rw [hmem.mp hp]
      rfl
  have hle := h.pool.length_le_outstandingTotal hnodup hout
  rw [List.length_cons, List.length_flatMap,
    Finset.sum_map_toList support fun t => (buffer t).length] at hle
  exact hle

/-- Every step keeps the gauges right. -/
theorem CoreGauges.step (hgauges : CoreGauges c buffered) (h : CoreInv c extra kindC)
    (hstep : poolStep c l = some c') :
    ∃ buffered', CoreGauges c' buffered' := by
  obtain ⟨buffered', hbuffers, hchange⟩ :=
    hgauges.buffers.change (g := fun t => (c'.call t).buffer.length) l.thread
    fun t ht => by rw [(poolStep_frame ht hstep).1]
  have hslabs := hgauges.slabs
  have hlarge := hgauges.large
  have heffect := poolStep_effect hstep
  suffices hsuff : c'.pool.outstandingSlabs + buffered' = c'.pool.outstandingTotal ∧
      c'.pool.largeMappedBytes = (c'.large.map Prod.snd).sum from ⟨buffered', hbuffers,
        hsuff.1, hsuff.2⟩
  generalize c'.pool = pool at heffect ⊢
  generalize c'.large = large at heffect ⊢
  generalize c'.call l.thread = call at heffect hchange
  cases heffect with
  | allocSlab hcall heq hcall' =>
    obtain ⟨hsame, -, htotal, hcount⟩ := allocSlabLocked_gauges h.pool heq
    rw [hcall'] at hchange
    simp only [PoolLabel.thread, hcall, PoolCall.buffer, List.length_nil] at hchange
    exact ⟨by omega, hsame.large.trans hlarge⟩
  | allocSlabSlow hcall heq hcall' =>
    obtain ⟨hsame, -, htotal, hcount⟩ := allocSlabSlowLocked_gauges heq
    rw [hcall'] at hchange
    simp only [PoolLabel.thread, hcall, PoolCall.buffer, List.length_nil] at hchange
    exact ⟨by omega, hsame.large.trans hlarge⟩
  | deallocSlab hcall hpage heq hcall' =>
    obtain ⟨hsame, -, htotal, hcount⟩ :=
      deallocSlabLocked_gauges h.pool (((h.keyed (.owned _)).1 _).mp hpage) heq
    have hlt := h.buffered_lt hgauges.buffers hpage
    rw [hcall'] at hchange
    simp only [PoolLabel.thread, hcall, PoolCall.buffer, List.length_nil] at hchange
    exact ⟨by omega, hsame.large.trans hlarge⟩
  | purgeTake hcall heq =>
    obtain ⟨hsame, -, htotal, hcount⟩ :=
      purgeTakeLoop_gauges (h.pool.withCounters _ _ c.pool.countLock.metrics) (.buffer 0) heq
    have htotal' : pool.outstandingTotal + ([] : List ℕ).length = c.pool.outstandingTotal + _ :=
      htotal
    have hcount' : pool.outstandingSlabs = c.pool.outstandingSlabs := hcount
    simp only [PoolLabel.thread, hcall, PoolCall.buffer, List.length_nil] at hchange htotal'
    exact ⟨by omega, hsame.large.trans hlarge⟩
  | purgeReturn hcall heq =>
    obtain ⟨hsame, -, htotal, hcount⟩ :=
      purgeReturnLoop_gauges (h.pool.withCounters _ _ _) (h.buffer hcall).1 (h.buffer hcall).2 heq
    have htotal' : pool.outstandingTotal + _ = c.pool.outstandingTotal := htotal
    have hcount' : pool.outstandingSlabs = c.pool.outstandingSlabs := hcount
    simp only [PoolLabel.thread, hcall, PoolCall.buffer, List.length_nil] at hchange
    exact ⟨by omega, hsame.large.trans hlarge⟩
  | allocLarge hcall =>
    simp only [PoolLabel.thread, hcall, PoolCall.buffer, List.length_nil] at hchange
    refine ⟨?_, ?_⟩
    · change c.pool.outstandingSlabs + buffered' = c.pool.outstandingTotal
      omega
    · simp only [allocLargeLocked, List.map_cons, List.sum_cons]
      omega
  | deallocLarge hcall hmem =>
    simp only [PoolLabel.thread, hcall, PoolCall.buffer, List.length_nil] at hchange
    refine ⟨?_, ?_⟩
    · change c.pool.outstandingSlabs + buffered' = c.pool.outstandingTotal
      omega
    · have hsum := ((List.perm_cons_erase hmem).map Prod.snd).sum_eq
      rw [List.map_cons, List.sum_cons] at hsum
      simp only [deallocLargeLocked]
      omega
  | unlocked hcall =>
    rw [hcall] at hchange
    exact ⟨by omega, hlarge⟩

/-- The step does not map a segment into a full table. -/
def MapsCounted (c : PoolCore) : PoolLabel → Prop
  | .allocSlabSlow _ => c.pool.segmentCount < maxSegments
  | _ => True

/-- A step counts no abandoned or adopted slab, and every segment it counts as mapped is
registered. -/
theorem CoreInv.step_events (h : CoreInv c extra kindC) (hstep : poolStep c l = some c') :
    c'.pool.metrics.abandonCount = c.pool.metrics.abandonCount ∧ c'.pool.metrics.adoptCount =
      c.pool.metrics.adoptCount ∧
      (MapsCounted c l → c'.pool.mapBalance = c.pool.mapBalance) := by
  have heffect := poolStep_effect hstep
  generalize c'.pool = pool at heffect ⊢
  generalize c'.large = large at heffect
  generalize c'.call l.thread = call at heffect
  cases heffect with
  | allocSlab hcall heq hcall' =>
    obtain ⟨hsame, hbalance, -, -⟩ := allocSlabLocked_gauges h.pool heq
    exact ⟨hsame.abandonCount, hsame.adoptCount, fun _ => hbalance⟩
  | allocSlabSlow hcall heq hcall' =>
    obtain ⟨hsame, hbalance, -, -⟩ := allocSlabSlowLocked_gauges heq
    refine ⟨hsame.abandonCount, hsame.adoptCount, fun hroom => ?_⟩
    rw [hbalance, if_neg (not_le.mpr hroom), add_zero]
  | deallocSlab hcall hpage heq hcall' =>
    obtain ⟨hsame, hbalance, -, -⟩ := deallocSlabLocked_gauges h.pool
      (((h.keyed (.owned _)).1 _).mp hpage) heq
    exact ⟨hsame.abandonCount, hsame.adoptCount, fun _ => hbalance⟩
  | purgeTake hcall heq =>
    obtain ⟨hsame, hbalance, -, -⟩ :=
      purgeTakeLoop_gauges (h.pool.withCounters _ _ c.pool.countLock.metrics) (.buffer 0) heq
    exact ⟨hsame.abandonCount, hsame.adoptCount, fun _ => hbalance⟩
  | purgeReturn hcall heq =>
    obtain ⟨hsame, hbalance, -, -⟩ := purgeReturnLoop_gauges (h.pool.withCounters _ _ _)
      (h.buffer hcall).1 (h.buffer hcall).2 heq
    exact ⟨hsame.abandonCount, hsame.adoptCount, fun _ => hbalance⟩
  | allocLarge hcall => exact ⟨rfl, rfl, fun _ => rfl⟩
  | deallocLarge hcall hmem => exact ⟨rfl, rfl, fun _ => rfl⟩
  | unlocked hcall => exact ⟨rfl, rfl, fun _ => rfl⟩

end ClMalloc
