import ClMalloc.PoolCoreInvariant

/-!
# When a wholly free segment stays registered

`dealloc_slab` releases the segment of the page it returns as soon as no page of it is
outstanding. The second section of `purge_excess` lowers the same counter without that
test, so a segment whose last outstanding pages come back from a purge buffer stays
registered; so does a wholly free segment that was kept only because an exhausted cursor
pointed at its first byte, once the cursor moves on. These are the only two ways: in a run
without such steps every registered segment that the cursor is not in has a page in use.
-/

namespace ClMalloc

/-- No call is in progress and some segment, away from the cursor, has all its pages on the free
lists. -/
def PoolCore.IdleSegment (c : PoolCore) : Prop :=
  (∀ t, c.call t = .idle) ∧ ∃ i < c.pool.segmentCount,
    inSegment (c.pool.segments i) c.pool.segmentCursor = false ∧ c.pool.segOutstanding i = 0 ∧
      ∀ p ∈ segmentPages (c.pool.segments i),
        p ∈ c.pool.dirtyList.pages ∨ p ∈ c.pool.cleanList.pages

/-- The purge buffer is not all that is outstanding of a segment away from the cursor. -/
def PoolCore.PurgeKeepsSegments (c : PoolCore) (buf : List ℕ) : Prop :=
  ∀ i < c.pool.segmentCount, inSegment (c.pool.segments i) c.pool.segmentCursor = false →
    0 < buf.countP (inSegment (c.pool.segments i)) →
    buf.countP (inSegment (c.pool.segments i)) < c.pool.segOutstanding i

/-- A registration that moves an exhausted cursor does not move it off a segment with nothing
outstanding. -/
def PoolCore.RegisterKeepsSegments (c : PoolCore) : Prop :=
  c.pool.segmentCount < maxSegments → c.pool.segmentEnd ≤ c.pool.segmentCursor →
    ∀ i < c.pool.segmentCount, inSegment (c.pool.segments i) c.pool.segmentCursor = true →
      0 < c.pool.segOutstanding i

/-- The step leaves no wholly free segment behind. -/
def ReclaimGuard (c : PoolCore) : PoolLabel → Prop
  | .purgeReturn t => ∀ todo buf, c.call t = .purged todo buf → c.PurgeKeepsSegments buf
  | .allocSlabSlow _ => c.RegisterKeepsSegments
  | _ => True

/-- Every registered segment away from the cursor has an outstanding page. -/
def SegmentsHeld (st : PoolState) : Prop :=
  ∀ i < st.segmentCount, inSegment (st.segments i) st.segmentCursor = false →
    0 < st.segOutstanding i

variable {T : Type} {st st' : PoolState} {kind kind' : ℕ → PageKind T}

/-- A segment has outstanding pages when one of its pages is out. -/
theorem PoolInv.outstanding_pos (h : PoolInv st kind) {i : ℕ} (hi : i < st.segmentCount) :
    0 < st.segOutstanding i ↔ ∃ p ∈ segmentPages (st.segments i), (kind p).isOut = true := by
  rw [h.outstanding i hi, List.countP_pos_iff]

/-- Keeping the table and the cursor and returning no page keeps every segment held. -/
theorem SegmentsHeld.mono (hheld : SegmentsHeld st) (h : PoolInv st kind) (h' : PoolInv st' kind')
    (htable : SameTable st st') (hout : ∀ p, (kind p).isOut = true → (kind' p).isOut = true) :
    SegmentsHeld st' := by
  intro i hi hcursor
  rw [htable.count] at hi
  rw [htable.segments, htable.cursor] at hcursor
  obtain ⟨p, hp, hpout⟩ := (h.outstanding_pos hi).mp (hheld i hi hcursor)
  rw [h'.outstanding_pos (htable.count ▸ hi), htable.segments]
  exact ⟨p, hp, hout p hpout⟩

/-- Handing a page out keeps the outstanding pages outstanding. -/
theorem isOut_update_out {slab p : ℕ} (tag : T) (hp : (kind p).isOut = true) :
    (Function.update kind slab (.out tag) p).isOut = true := by
  by_cases hps : p = slab
  · subst hps
    simp [PageKind.isOut]
  · rwa [Function.update_of_ne hps]

/-- `alloc_slab` keeps every segment held. -/
theorem SegmentsHeld.allocSlabLocked (hheld : SegmentsHeld st) (h : PoolInv st kind) (tag : T)
    {result : Option ℕ} (heq : allocSlabLocked st = some (st', result)) : SegmentsHeld st' := by
  rcases allocSlabLocked_spec h tag with ⟨slab, st₁, heq', -, hinv, -, htable⟩ | ⟨heq', -⟩
  · rw [heq', Option.some.injEq, Prod.mk.injEq] at heq
    obtain ⟨rfl, -⟩ := heq
    rcases htable with htable | ⟨rfl, hcur, hsegments, hcount, -, hcursor⟩
    · exact hheld.mono h hinv htable fun p => isOut_update_out tag
    · intro i hi hout
      rw [hcount] at hi
      rw [hinv.outstanding_pos (hcount ▸ hi), hsegments]
      have hmem := h.cursor_mem hcur
      by_cases hidx : i = st.carvingIdx
      · exact ⟨st.segmentCursor, hidx ▸ hmem, by simp [PageKind.isOut]⟩
      · have hold : inSegment (st.segments i) st.segmentCursor = false := by
          by_contra hin
          have hknown := (h.registered _).mpr ⟨_, (h.carving hcur).1, hmem⟩
          exact hidx (h.index_unique hi (h.carving hcur).1
            ((h.mem_segmentPages_iff hi).mpr ⟨by simpa using hin, hknown⟩) hmem)
        obtain ⟨p, hp, hpout⟩ := (h.outstanding_pos hi).mp (hheld i hi hold)
        exact ⟨p, hp, isOut_update_out tag hpout⟩
  · rw [heq', Option.some.injEq, Prod.mk.injEq] at heq
    obtain ⟨rfl, -⟩ := heq
    exact hheld

/-- `alloc_slab_slow` keeps every segment held unless it moves the cursor off one that nothing
holds. -/
theorem SegmentsHeld.allocSlabSlowLocked (hheld : SegmentsHeld st) (h : PoolInv st kind) (tag : T)
    {base : ℕ} (hbase : FreshSegment st base)
    (hguard : st.segmentCount < maxSegments → st.segmentEnd ≤ st.segmentCursor →
      ∀ i < st.segmentCount,
      inSegment (st.segments i) st.segmentCursor = true → 0 < st.segOutstanding i) :
    SegmentsHeld (allocSlabSlowLocked st base).1 := by
  rcases allocSlabSlowLocked_spec h hbase tag with
    ⟨-, st', heq, hinv, htable⟩ | ⟨st', rest, heq, hsegments, hcount, hinv, -, hcursor⟩
  · rw [heq]
    exact hheld.mono h hinv htable fun p hp => hp
  · rw [heq]
    intro i hi hout
    change i < st'.segmentCount at hi
    change inSegment (st'.segments i) st'.segmentCursor = false at hout
    rw [hinv.outstanding_pos hi, hsegments]
    by_cases hlast : i = st.segmentCount
    · subst hlast
      rw [appendSegment_segments_self]
      exact ⟨base, base_mem_segmentPages base, by simp [registerKind, PageKind.isOut]⟩
    · have hold : i < st.segmentCount := by omega
      have hroom : st.segmentCount < maxSegments := by
        have := hinv.count_le
        omega
      rw [hsegments, appendSegment_segments_of_ne base hlast] at hout
      rw [appendSegment_segments_of_ne base hlast]
      have hpos : 0 < st.segOutstanding i := by
        cases hin : inSegment (st.segments i) st.segmentCursor with
        | false => exact hheld i hold hin
        | true =>
          rcases hcursor with ⟨-, hcursor, -⟩ | ⟨hexhausted, -⟩
          · rw [hcursor, hin] at hout
            contradiction
          · exact hguard hroom hexhausted i hold hin
      obtain ⟨p, hp, hpout⟩ := (h.outstanding_pos hold).mp hpos
      have hnot : p ∉ segmentPages base := fun hmem => by
        rw [hbase.outside h hmem] at hpout
        simp [PageKind.isOut] at hpout
      exact ⟨p, hp, by rwa [registerKind_of_notMem hnot]⟩

/-- `dealloc_slab` keeps every segment held: the one it empties is released. -/
theorem SegmentsHeld.deallocSlabLocked (hheld : SegmentsHeld st) (h : PoolInv st kind) {slab : ℕ}
    {tag : T} (hkind : kind slab = .out tag) {outcome : DeallocOutcome}
    (heq : deallocSlabLocked st slab = some (st', outcome)) : SegmentsHeld st' := by
  obtain ⟨seg, st₁, hseg, hmem, ⟨heq', hinv, hrem, -, -⟩ |
    ⟨outcome', heq', -, hinv, htable, hkeep⟩⟩ :=
    deallocSlabLocked_spec h hkind
  · rw [heq', Option.some.injEq, Prod.mk.injEq] at heq
    obtain ⟨rfl, -⟩ := heq
    intro i hi hout
    obtain ⟨j, hj, hne, hsame⟩ := hrem.old i hi
    rw [hsame, hrem.cursor] at hout
    obtain ⟨p, hp, hpout⟩ := (h.outstanding_pos hj).mp (hheld j hj hout)
    rw [hinv.outstanding_pos hi, hsame]
    exact ⟨p, hp, by rwa [h.releaseKind_of_mem hj hseg hne hp]⟩
  · rw [heq', Option.some.injEq, Prod.mk.injEq] at heq
    obtain ⟨rfl, -⟩ := heq
    intro i hi hout
    by_cases hsame : i = seg
    · subst hsame
      refine hkeep.resolve_right fun hin => ?_
      rw [htable.segments, htable.cursor, hin] at hout
      contradiction
    · rw [htable.count] at hi
      rw [htable.segments, htable.cursor] at hout
      obtain ⟨p, hp, hpout⟩ := (h.outstanding_pos hi).mp (hheld i hi hout)
      rw [hinv.outstanding_pos (htable.count ▸ hi), htable.segments]
      refine ⟨p, hp, ?_⟩
      rwa [Function.update_of_ne]
      rintro rfl
      exact hsame (h.index_unique hi hseg hp hmem)

/-- The first purge section keeps every segment held. -/
theorem SegmentsHeld.purgeTakeLocked (hheld : SegmentsHeld st) (h : PoolInv st kind) (tag : T)
    {buf : List ℕ} (heq : purgeTakeLocked st = some (st', buf)) : SegmentsHeld st' := by
  obtain ⟨st₁, taken, heq', -, -, hinv, htable⟩ := purgeTakeLocked_spec h tag
  rw [heq', Option.some.injEq, Prod.mk.injEq] at heq
  obtain ⟨rfl, -⟩ := heq
  refine hheld.mono h hinv htable fun p hp => ?_
  by_cases hin : p ∈ taken
  · simp [setKind, hin, PageKind.isOut]
  · simpa [setKind, hin] using hp

/-- The second purge section keeps every segment held that has more outstanding than the buffer. -/
theorem SegmentsHeld.purgeReturnLocked (hheld : SegmentsHeld st) (h : PoolInv st kind)
    {buf : List ℕ} (hnodup : buf.Nodup) (hbuf : ∀ p ∈ buf, ∃ tag, kind p = .out tag)
    (hguard : ∀ i < st.segmentCount, inSegment (st.segments i) st.segmentCursor = false →
      0 < buf.countP (inSegment (st.segments i)) →
        buf.countP (inSegment (st.segments i)) < st.segOutstanding i)
    (heq : purgeReturnLocked st buf = some st') : SegmentsHeld st' := by
  obtain ⟨st₁, heq', hinv, htable⟩ := purgeReturnLocked_spec h buf hnodup hbuf
  rw [heq', Option.some.injEq] at heq
  subst heq
  intro i hi hout
  rw [htable.count] at hi
  rw [htable.segments, htable.cursor] at hout
  have hlt : buf.countP (inSegment (st.segments i)) < st.segOutstanding i := by
    rcases Nat.eq_zero_or_pos (buf.countP (inSegment (st.segments i))) with hzero | hpos
    · rw [hzero]
      exact hheld i hi hout
    · exact hguard i hi hout hpos
  rw [hinv.outstanding_pos (htable.count ▸ hi), htable.segments]
  by_contra hnone
  push Not at hnone
  -- every outstanding page of the segment would be in the buffer
  have hsubset : (segmentPages (st.segments i)).filter (fun p => (kind p).isOut) ⊆
      buf.filter (inSegment (st.segments i)) := by
    intro p hp
    obtain ⟨hp, hpout⟩ := List.mem_filter.mp hp
    refine List.mem_filter.mpr ⟨?_, ((h.mem_segmentPages_iff hi).mp hp).1⟩
    by_contra hnot
    exact hnone p hp (by simpa [setKind, hnot] using hpout)
  have hle := (List.subperm_of_subset ((segmentPages_nodup _).filter _) hsubset).length_le
  rw [← List.countP_eq_length_filter, ← List.countP_eq_length_filter, ← h.outstanding i hi] at hle
  omega

variable {c c' : PoolCore} {kindC : ℕ → PageKind (Tag Empty)}

/-- Every guarded step keeps every segment held. -/
theorem SegmentsHeld.step (hheld : SegmentsHeld c.pool) (h : CoreInv c (fun _ : Empty => []) kindC)
    {l : PoolLabel} (hguard : ReclaimGuard c l) (hstep : poolStep c l = some c') :
    SegmentsHeld c'.pool := by
  have hsection := poolStep_section hstep
  generalize c'.pool = pool at hsection ⊢
  cases hsection with
  | allocSlab heq => exact hheld.allocSlabLocked h.pool (.owned 0) heq
  | allocSlabSlow hcall => exact hheld.allocSlabSlowLocked h.pool (.owned 0) (h.fresh hcall) hguard
  | deallocSlab hp heq =>
    exact hheld.deallocSlabLocked h.pool (((h.keyed (.owned _)).1 _).mp hp) heq
  | purgeTake heq => exact hheld.purgeTakeLocked h.pool (.buffer 0) heq
  | purgeReturn hcall heq =>
    exact hheld.purgeReturnLocked h.pool (h.buffer hcall).1 (h.buffer hcall).2
      (hguard [] _ hcall) heq
  | count bytes => exact hheld

/-- A thread that takes no step of the run stays where it was. -/
theorem run_poolStep_call {labels : List PoolLabel} {t : ℕ} (ht : ∀ l ∈ labels, l.thread ≠ t)
    (hrun : Transition.run poolStep c labels = some c') : c'.call t = c.call t := by
  refine Transition.run_invariant_of_labels (I := fun c' => c'.call t = c.call t) ?_ rfl hrun
  intro l hl c₁ c₂ hcall hstep
  rw [(poolStep_frame (Ne.symm (ht l hl)) hstep).1, hcall]

/-- In a run of guarded steps no wholly free segment away from the cursor stays registered. -/
theorem no_idleSegment_of_guarded {labels : List PoolLabel}
    (hmeets : Transition.Meets poolStep ReclaimGuard PoolCore.new labels)
    (hrun : Transition.run poolStep PoolCore.new labels = some c) : ¬c.IdleSegment := by
  have hinit : SegmentsHeld PoolCore.new.pool := fun i hi => absurd hi (Nat.not_lt_zero i)
  have hfinal : (∃ kind, CoreInv c (fun _ : Empty => []) kind) ∧ SegmentsHeld c.pool :=
    Transition.run_invariant_of_meets
      (I := fun c => (∃ kind, CoreInv c (fun _ : Empty => []) kind) ∧ SegmentsHeld c.pool)
      (fun _ _ _ ⟨⟨_, hinv⟩, hheld⟩ hguard hstep => ⟨hinv.step hstep, hheld.step hinv hguard hstep⟩)
      ⟨⟨_, coreInv_new⟩, hinit⟩ hmeets hrun
  rintro ⟨-, i, hi, hcursor, hzero, -⟩
  have := hfinal.2 i hi hcursor
  omega

/-- Map a segment at `base` and take its first page. -/
def mapSegment (t base : ℕ) : List PoolLabel :=
  [.allocSlab t, .osAlloc t (some base), .allocSlabSlow t]

/-- Return the pages of the segment at `base` with these indices. -/
def returnPages (t base : ℕ) (indices : List ℕ) : List PoolLabel :=
  indices.map fun i => .deallocSlab t (base + i * slabSize)

/-- Whether a buffer is not all that is outstanding can be computed. -/
instance (c : PoolCore) (buf : List ℕ) : Decidable (c.PurgeKeepsSegments buf) :=
  inferInstanceAs (Decidable (∀ i < c.pool.segmentCount, _ → _ → _))

/-- Whether a registration leaves no wholly free segment behind can be computed. -/
instance (c : PoolCore) : Decidable c.RegisterKeepsSegments :=
  inferInstanceAs (Decidable (_ → _ → ∀ i < c.pool.segmentCount, _ → _))

/-- The guard, with the buffer read off the call. -/
def ReclaimGuardAt (c : PoolCore) : PoolLabel → Prop
  | .purgeReturn t => c.PurgeKeepsSegments (c.call t).buffer
  | .allocSlabSlow _ => c.RegisterKeepsSegments
  | _ => True

/-- Whether a step leaves no wholly free segment behind can be computed. -/
instance (c : PoolCore) (l : PoolLabel) : Decidable (ReclaimGuardAt c l) :=
  match l with
  | .purgeReturn t => inferInstanceAs (Decidable (c.PurgeKeepsSegments (c.call t).buffer))
  | .allocSlabSlow _ => inferInstanceAs (Decidable c.RegisterKeepsSegments)
  | .allocSlab _ | .osAlloc _ _ | .osDealloc _ | .deallocSlab _ _ | .purgeTake _ | .purgePage _ |
      .osAllocLarge _ _ _ _
  | .allocLarge _ | .deallocLarge _ _ _ => isTrue trivial

/-- A buffer in the call is the buffer of the call. -/
theorem ReclaimGuardAt.reclaimGuard {l : PoolLabel} (h : ReclaimGuardAt c l) :
    ReclaimGuard c l := by
  cases l with
  | purgeReturn t =>
    intro todo buf hcall
    rw [ReclaimGuardAt, hcall] at h
    exact h
  | allocSlabSlow t => exact h
  | _ => trivial

/-- Threads 0 and 1 register adjacent segments, the cursor comes to rest at the first byte of the
second, and thread 2 registers a third; all pages are handed out. -/
def handOutRun : List PoolLabel :=
  [.allocSlab 0, .allocSlab 1, .osAlloc 0 (some 0x1000000), .osAlloc 1 (some 0x1200000),
    .allocSlabSlow 0, .allocSlabSlow 1] ++
    List.replicate 31 (.allocSlab 1) ++ List.replicate 31 (.allocSlab 0) ++
    mapSegment 2 0x3000000 ++ List.replicate 31 (.allocSlab 2)

/-- Pages of all three segments are returned, and thread 2 starts a purge that takes 29 pages of the
second segment and three of the third; thread 0 gives up the last page of the first segment, which
is released. -/
def startPurgeRun : List PoolLabel :=
  returnPages 0 0x1000000 (List.range' 1 31) ++ returnPages 1 0x1200000 (List.range' 1 31) ++
    returnPages 2 0x3000000 (List.range' 1 3) ++ [.purgeTake 2,
      .deallocSlab 0 0x1000000, .osDealloc 0]

/-- The purge ends, and thread 1 gives up the last page of the second segment, which is released. -/
def endPurgeRun : List PoolLabel :=
  List.replicate 32 (.purgePage 2) ++ [.purgeReturn 2, .deallocSlab 1 0x1200000, .osDealloc 1]

/-- Three segments are used up, one is released during a purge and one after it. -/
def keptRun : List PoolLabel := handOutRun ++ startPurgeRun ++ endPurgeRun

/-- After a purge two segments have been released and no registered one is wholly free. -/
theorem no_idleSegment_keptRun : ∃ c, Transition.run poolStep PoolCore.new keptRun = some c ∧
    c.pool.segmentCount = 1 ∧ c.pool.metrics.segmentMunmapCount = 2 ∧
      c.pool.metrics.slabPurgeCount = 32 ∧
      c.call 0 = .idle ∧ c.call 1 = .idle ∧ c.call 2 = .idle ∧ ¬c.IdleSegment := by
  have hmeets : Transition.Meets poolStep ReclaimGuardAt PoolCore.new keptRun := by decide +kernel
  have heval : (Transition.run poolStep PoolCore.new keptRun).map
      (fun c => decide (c.pool.segmentCount = 1 ∧
      c.pool.metrics.segmentMunmapCount = 2 ∧ c.pool.metrics.slabPurgeCount = 32 ∧
        c.call 0 = .idle ∧
      c.call 1 = .idle ∧ c.call 2 = .idle)) = some true := by decide +kernel
  obtain ⟨c, hrun, hc⟩ := Option.map_eq_some_iff.mp heval
  obtain ⟨hcount, hmunmap, hpurge, hidle₀, hidle₁, hidle₂⟩ := of_decide_eq_true hc
  exact ⟨c, hrun, hcount, hmunmap, hpurge, hidle₀, hidle₁, hidle₂,
    no_idleSegment_of_guarded (hmeets.mono fun _ _ h => h.reclaimGuard) hrun⟩

/-- Three segments are handed out whole, the first page of the third to thread 1 and all others to
thread 0. Thread 0 returns 65 pages, the last 31 of them from the third segment, and so starts
a purge; thread 1 returns the last page of the third segment while the others are in the buffer. -/
def purgeRun : List PoolLabel :=
  mapSegment 0 0x1000000 ++ List.replicate 31 (.allocSlab 0) ++
    mapSegment 0 0x2000000 ++ List.replicate 31 (.allocSlab 0) ++
    mapSegment 1 0x3000000 ++ List.replicate 31 (.allocSlab 0) ++
    returnPages 0 0x1000000 (List.range' 1 31) ++ returnPages 0 0x2000000 (List.range' 1 3) ++
    returnPages 0 0x3000000 (List.range' 1 31) ++
    [.purgeTake 0, .deallocSlab 1 0x3000000] ++ List.replicate 32 (.purgePage 0) ++ [.purgeReturn 0]

/-- A segment that becomes wholly free through a purge buffer stays registered. -/
theorem idleSegment_purgeRun :
    ∃ c, Transition.run poolStep PoolCore.new purgeRun = some c ∧ c.IdleSegment := by
  have heval : (Transition.run poolStep PoolCore.new purgeRun).map
      (fun c => decide (c.call 0 = .idle ∧
      c.call 1 = .idle ∧ 2 < c.pool.segmentCount ∧
      inSegment (c.pool.segments 2) c.pool.segmentCursor = false ∧ c.pool.segOutstanding 2 = 0 ∧
      ∀ p ∈ segmentPages (c.pool.segments 2),
        p ∈ c.pool.dirtyList.pages ∨ p ∈ c.pool.cleanList.pages)) =
      some true := by decide +kernel
  obtain ⟨c, hrun, hc⟩ := Option.map_eq_some_iff.mp heval
  obtain ⟨hcall₀, hcall₁, hcount, hsegment⟩ := of_decide_eq_true hc
  refine ⟨c, hrun, fun t => ?_, 2, hcount, hsegment⟩
  have hthreads : ∀ l ∈ purgeRun, l.thread < 2 := by decide +kernel
  by_cases ht : t < 2
  · interval_cases t
    · exact hcall₀
    · exact hcall₁
  · exact run_poolStep_call (fun l hl => by have := hthreads l hl; omega) hrun

end ClMalloc
