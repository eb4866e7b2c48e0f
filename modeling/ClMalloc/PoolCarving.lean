import ClMalloc.PoolSerial

/-!
# When a segment counts as carved

`segment_fully_carved` asks whether the carving cursor lies in the segment. A cursor that
has used up its segment stays one past the end of it, and when another registered segment
begins there the question is answered for the wrong segment: that one is never released.
In a serial run this happens exactly when the last page of a segment is carved while the
segment behind it is registered.
-/

namespace ClMalloc

/-- No registered segment has all its pages free, and a segment without uncarved pages counts as
carved. -/
structure SegmentsReleased (st : PoolState) : Prop where
  released : ∀ i < st.segmentCount, ∃ p ∈ segmentPages (st.segments i),
    p ∉ st.dirtyList.pages ∧ p ∉ st.cleanList.pages
  carved : ∀ i < st.segmentCount,
    (∀ p ∈ segmentPages (st.segments i), ¬(st.segmentCursor ≤ p ∧ p < st.segmentEnd)) →
    segmentFullyCarved st i = true

/-- The call does not carve the last page of a segment behind which a registered segment begins. -/
def CarveGuard (c : PoolCore) : PoolOp → Prop
  | .allocSlab _ => c.pool.dirtyList.pages = [] → c.pool.cleanList.pages = [] →
      c.pool.segmentCursor + slabSize = c.pool.segmentEnd →
      ∀ i < c.pool.segmentCount, c.pool.segments i ≠ c.pool.segmentEnd
  | .deallocSlab _ => True

/-- A used-up cursor lies in no registered segment. -/
def CursorAway (st : PoolState) : Prop :=
  st.segmentEnd ≤ st.segmentCursor →
    ∀ i < st.segmentCount, inSegment (st.segments i) st.segmentCursor = false

variable {T : Type} {st st' : PoolState} {kind : ℕ → PageKind T} {c c' : PoolCore}

/-- With the cursor away from other segments and every segment held, segments are released in
time. -/
theorem PoolInv.segmentsReleased (h : PoolInv st kind) (hheld : SegmentsHeld st)
    (haway : CursorAway st) :
    SegmentsReleased st := by
  have hcarved : ∀ i < st.segmentCount,
      (∀ p ∈ segmentPages (st.segments i), ¬(st.segmentCursor ≤ p ∧ p < st.segmentEnd)) →
      inSegment (st.segments i) st.segmentCursor = false := by
    intro i hi hnone
    rcases Nat.lt_or_ge st.segmentCursor st.segmentEnd with hcur | hcur
    · by_contra hin
      have hmem := h.cursor_mem hcur
      have hknown := (h.registered _).mpr ⟨_, (h.carving hcur).1, hmem⟩
      exact hnone _ ((h.mem_segmentPages_iff hi).mpr ⟨by simpa using hin, hknown⟩) ⟨le_rfl, hcur⟩
    · exact haway hcur i hi
  constructor
  · intro i hi
    by_contra hfree
    push Not at hfree
    have hkind : ∀ p ∈ segmentPages (st.segments i), kind p = .dirty ∨ kind p = .clean := by
      intro p hp
      by_cases hd : p ∈ st.dirtyList.pages
      · exact .inl ((h.dirty p).mp hd)
      · exact .inr ((h.clean p).mp (hfree p hp hd))
    have hpos := hheld i hi (hcarved i hi fun p hp hrange => ?_)
    · obtain ⟨p, hp, hout⟩ := (h.outstanding_pos hi).mp hpos
      rcases hkind p hp with hk | hk <;> simp [hk, PageKind.isOut] at hout
    · have hdvd := ((mem_segmentPages (h.base_aligned i hi)).mp hp).2.2
      have huncarved := (h.uncarved p).mp ⟨hrange.1, hrange.2, hdvd⟩
      rcases hkind p hp with hk | hk <;> rw [hk] at huncarved <;> cases huncarved
  · intro i hi hnone
    rw [segmentFullyCarved, hcarved i hi hnone]
    rfl

/-- Keeping the table and the cursor keeps the cursor away. -/
theorem CursorAway.of_sameTable (haway : CursorAway st) (htable : SameTable st st') :
    CursorAway st' := by
  intro hend i hi
  rw [htable.segments, htable.cursor]
  rw [htable.rangeEnd, htable.cursor] at hend
  exact haway hend i (htable.count ▸ hi)

/-- Popping a free page leaves the cursor; without one both free lists are empty. -/
theorem popFree_cursor (st : PoolState) :
    match popFree st with
    | some (_, st') => st'.segmentCursor = st.segmentCursor
    | none => st.dirtyList.pages = [] ∧ st.cleanList.pages = [] := by
  unfold popFree PageFreeList.pop
  cases hd : st.dirtyList.pages with
  | cons slab rest => rfl
  | nil =>
    cases hc : st.cleanList.pages with
    | cons slab rest => rfl
    | nil => exact ⟨rfl, rfl⟩

/-- `alloc_slab` moves the cursor only when both free lists are empty. -/
theorem allocSlabLocked_cursor {result : Option ℕ} (h : allocSlabLocked st = some (st', result)) :
    st'.segmentCursor = st.segmentCursor ∨ st.dirtyList.pages = [] ∧ st.cleanList.pages = [] := by
  have hpop := popFree_cursor st.countLock
  unfold allocSlabLocked at h
  split at h
  · rename_i heq
    rw [heq] at hpop
    split at h <;> try contradiction
    obtain ⟨rfl, -⟩ := Prod.mk.inj (Option.some.inj h)
    exact .inl hpop
  · rename_i heq
    rw [heq] at hpop
    exact .inr hpop

/-- The section of `alloc_slab` keeps the cursor away unless it ends at another segment. -/
theorem CursorAway.allocSlabLocked (haway : CursorAway st) (h : PoolInv st kind) (tag : T)
    {slab : ℕ}
    (hguard : st.dirtyList.pages = [] → st.cleanList.pages = [] →
      st.segmentCursor + slabSize = st.segmentEnd →
      ∀ i < st.segmentCount, st.segments i ≠ st.segmentEnd)
    (heq : allocSlabLocked st = some (st', some slab)) : CursorAway st' := by
  rcases allocSlabLocked_spec h tag with ⟨slab', st₁, heq', -, -, -, htable⟩ | ⟨heq', -⟩
  case inr => simp [heq] at heq'
  obtain ⟨rfl, -⟩ := Prod.mk.inj (Option.some.inj (heq'.symm.trans heq))
  rcases htable with htable | ⟨-, hcur, hsegments, hcount, hend, hcursor⟩
  · exact haway.of_sameTable htable
  · intro hused i hi
    obtain ⟨hidx, hlo, hrange, hdvd⟩ := h.carving hcur
    have hbase := h.base_aligned _ hidx
    obtain ⟨hs, hg, -⟩ := pool_sizes
    rw [hs] at hdvd hbase hcursor hguard
    rw [hg] at hrange
    rw [hcount] at hi
    have hlast : st.segmentCursor + 65536 = st.segmentEnd := by omega
    have hempty := (allocSlabLocked_cursor heq).resolve_left (by omega)
    have hne := hguard hempty.1 hempty.2 hlast i hi
    -- a segment that held the cursor would begin at the end of the carved one
    rw [hcursor, hsegments, hlast]
    simp only [inSegment, hg, Bool.and_eq_false_iff, decide_eq_false_iff_not]
    by_cases hcarving : i = st.carvingIdx
    · subst hcarving
      omega
    · have hd := h.disjoint i hi _ hidx hcarving
      rw [hg] at hd
      omega

/-- The slow path puts the cursor into the new segment, or leaves table and cursor. -/
theorem CursorAway.allocSlabSlowLocked (haway : CursorAway st) (h : PoolInv st kind) (tag : T)
    {base : ℕ} (hbase : FreshSegment st base) : CursorAway (allocSlabSlowLocked st base).1 := by
  rcases allocSlabSlowLocked_spec h hbase tag with
    ⟨-, st', heq, -, htable⟩ | ⟨st', rest, heq, -, -, -, -, hcursor⟩
  · rw [heq]
    exact haway.of_sameTable htable
  · rw [heq]
    intro hused
    change st'.segmentEnd ≤ st'.segmentCursor at hused
    obtain ⟨hs, hg, -⟩ := pool_sizes
    rcases hcursor with ⟨hcur, hcursor, hend⟩ | ⟨-, hcursor, hend⟩
    · omega
    · rw [hcursor, hend, hs, hg] at hused
      omega

/-- The section of `dealloc_slab` moves neither the cursor nor the segments that stay. -/
theorem CursorAway.deallocSlabLocked (haway : CursorAway st) (h : PoolInv st kind) {slab : ℕ}
    {tag : T} (hkind : kind slab = .out tag) {outcome : DeallocOutcome}
    (heq : deallocSlabLocked st slab = some (st', outcome)) : CursorAway st' := by
  obtain ⟨seg, st₁, -, -, ⟨heq', -, hrem, -⟩ | ⟨outcome', heq', -, -, htable, -⟩⟩ :=
    deallocSlabLocked_spec h hkind
  all_goals obtain ⟨rfl, -⟩ := Prod.mk.inj (Option.some.inj (heq'.symm.trans heq))
  · intro hused i hi
    obtain ⟨j, hj, -, hsame⟩ := hrem.old i hi
    rw [hrem.rangeEnd, hrem.cursor] at hused
    rw [hsame, hrem.cursor]
    exact haway hused j hj
  · exact haway.of_sameTable htable

/-- A purge keeps every segment held: table and counts are as before. -/
theorem SegmentsHeld.of_purge (hheld : SegmentsHeld st) (htable : SameTable st st')
    (hout : st'.segOutstanding = st.segOutstanding) : SegmentsHeld st' := by
  intro i hi hcursor
  rw [htable.segments, htable.cursor] at hcursor
  rw [hout]
  exact hheld i (htable.count ▸ hi) hcursor

/-- Between calls, with every segment held and the cursor away from other segments. -/
structure CarvingInv (c : PoolCore) : Prop where
  serial : SerialInv c
  held : SegmentsHeld c.pool
  away : CursorAway c.pool

/-- A new pool has no segment. -/
theorem carvingInv_new : CarvingInv PoolCore.new :=
  ⟨serialInv_new, fun i hi => absurd hi (Nat.not_lt_zero i),
    fun _ i hi => absurd hi (Nat.not_lt_zero i)⟩

/-- Every guarded call keeps the invariant. -/
theorem CarvingInv.step {op : PoolOp} (h : CarvingInv c) (hguard : CarveGuard c op)
    (hstep : poolOpStep c op = some c') : CarvingInv c' := by
  have hserial := h.serial.step hstep
  obtain ⟨kind, hcore⟩ := h.serial.core
  cases op with
  | allocSlab reply =>
    obtain ⟨⟨c₁, result⟩, halloc, rfl⟩ := Option.map_eq_some_iff.mp hstep
    have hlock : PoolInv c.pool.countLock kind := hcore.pool.withCounters _ _ _
    rcases hcore.allocSlabToEnd_pool halloc with ⟨slab, heq⟩ | ⟨-, heq | ⟨base, hfresh, heq⟩⟩
    · exact ⟨hserial, h.held.allocSlabLocked hcore.pool (.owned 0) heq,
        h.away.allocSlabLocked hcore.pool (.owned 0) hguard heq⟩
    · refine ⟨hserial, ?_, ?_⟩
      · rw [heq]
        exact h.held
      · rw [heq]
        exact h.away
    · have hfresh' : FreshSegment c.pool.countLock base :=
        ⟨hfresh.pos, hfresh.aligned, hfresh.disjoint⟩
      have hheld : SegmentsHeld c.pool.countLock := h.held
      have haway : CursorAway c.pool.countLock := h.away
      refine ⟨hserial, ?_, ?_⟩
      · rw [heq]
        apply hheld.allocSlabSlowLocked hlock (.owned 0) hfresh'
        intro _ hused i hi hin
        rw [haway hused i hi] at hin
        contradiction
      · rw [heq]
        exact haway.allocSlabSlowLocked hlock (.owned 0) hfresh'
  | deallocSlab page =>
    simp only [poolOpStep] at hstep
    split at hstep <;> try contradiction
    rename_i hpage
    have hkind := ((hcore.keyed (.owned 0)).1 page).mp hpage
    obtain ⟨pool, outcome, hlock, hend⟩ := PoolCore.deallocSlabToEnd_pool hstep
    have hheld := h.held.deallocSlabLocked hcore.pool hkind hlock
    have haway := h.away.deallocSlabLocked hcore.pool hkind hlock
    by_cases hpurge : outcome = .purge
    · rw [if_pos hpurge] at hend
      obtain ⟨purged, hexcess⟩ := hend
      obtain ⟨kindP, hpool⟩ := deallocSlabLocked_inv hcore.pool hkind hlock
      obtain ⟨st', purged', hexcess', hmoved, -, htable, -⟩ :=
        purgeExcessLocked_spec hpool (.owned 0)
      obtain ⟨rfl, rfl⟩ := Prod.mk.inj (Option.some.inj (hexcess'.symm.trans hexcess))
      exact ⟨hserial, hheld.of_purge htable hmoved.outstanding, haway.of_sameTable htable⟩
    · rw [if_neg hpurge] at hend
      rw [← hend] at hheld haway
      exact ⟨hserial, hheld, haway⟩

/-- A call that carves the last page in front of a registered segment leaves that one mistaken for
uncarved. -/
theorem not_released_of_not_guard {op : PoolOp} (hguard : ¬CarveGuard c op) :
    ∃ c', poolOpStep c op = some c' ∧ ¬SegmentsReleased c'.pool := by
  cases op with
  | deallocSlab page => exact absurd trivial hguard
  | allocSlab reply =>
    simp only [CarveGuard, Classical.not_imp, not_forall, ne_eq, not_not] at hguard
    obtain ⟨hdirty, hclean, hlast, i, hi, hbase⟩ := hguard
    obtain ⟨hs, hg, -⟩ := pool_sizes
    have hcur : c.pool.segmentCursor < c.pool.segmentEnd := by
      rw [hs] at hlast
      omega
    have hpop : popFree c.pool.countLock = none := by
      simp [popFree, PageFreeList.pop, PoolState.countLock, hdirty, hclean]
    have hlock : ∃ pool, allocSlabLocked c.pool = some (pool, some c.pool.segmentCursor) ∧
        pool.segmentCursor = c.pool.segmentEnd ∧ pool.segmentEnd = c.pool.segmentEnd ∧
        pool.segments = c.pool.segments ∧ pool.segmentCount = c.pool.segmentCount := by
      have heq : allocSlabLocked c.pool =
          some ({ c.pool.countLock.incOutstanding c.pool.carvingIdx with
          segmentCursor := c.pool.segmentCursor + slabSize
          outstandingSlabs := c.pool.outstandingSlabs + 1 }, some c.pool.segmentCursor) := by
        rw [allocSlabLocked, hpop]
        exact if_pos hcur
      exact ⟨_, heq, hlast, rfl, rfl, rfl⟩
    obtain ⟨pool, hlock, hcursor, hend, hsegments, hcount⟩ := hlock
    refine ⟨PoolCore.give { c with pool := pool } 0 c.pool.segmentCursor, ?_, ?_⟩
    · simp only [poolOpStep, PoolCore.allocSlabToEnd, PoolCore.allocSlab, hlock, Option.map_some]
    · intro hreleased
      have hcarved := hreleased.carved i
        (by change i < pool.segmentCount; omega) fun p _ hrange => by
        change pool.segmentCursor ≤ p ∧ p < pool.segmentEnd at hrange
        omega
      change segmentFullyCarved pool i = true at hcarved
      simp only [segmentFullyCarved, inSegment, hsegments, hcursor, hbase, hg, le_refl, decide_true,
        Bool.true_and, Bool.not_eq_true', decide_eq_false_iff_not] at hcarved
      omega

/-- Every state of a serial run has its segments released in time just when no call of the run
carves the last page of a segment behind which a registered segment begins. -/
theorem segments_released_iff (ops : List PoolOp) :
    (∀ done, done <+: ops → ∀ c, Transition.run poolOpStep PoolCore.new done = some c →
      SegmentsReleased c.pool) ↔ Transition.Meets poolOpStep CarveGuard PoolCore.new ops := by
  constructor
  · intro hreleased
    apply Transition.meets_of_forall_split
    intro done op rest hops c hrun
    by_contra hguard
    obtain ⟨c', hstep, hnot⟩ := not_released_of_not_guard hguard
    apply hnot
    apply hreleased (done ++ [op])
    · exact ⟨rest, by rw [hops, List.append_assoc, List.singleton_append]⟩
    · rw [Transition.run_append, hrun]
      exact Transition.run_cons_eq_some.mpr ⟨c', hstep, rfl⟩
  · intro hmeets done hdone c hrun
    obtain ⟨rest, rfl⟩ := hdone
    have h : CarvingInv c := Transition.run_invariant_of_meets
      (fun _ _ _ h hguard hstep => h.step hguard hstep)
      carvingInv_new (Transition.meets_append.mp hmeets).1 hrun
    obtain ⟨kind, hcore⟩ := h.serial.core
    exact hcore.pool.segmentsReleased h.held h.away

/-- The upper of two adjacent segments is taken first and given back after the lower one is
taken. -/
def adjacentRun : List PoolOp :=
  takeSegment 0x1200000 ++ takeSegment 0x1000000 ++ givePages 0x1200000 (List.range 32)

/-- The upper of two adjacent segments stays registered with all its pages on the dirty list. -/
theorem adjacent_segment_kept :
    ¬∀ (ops : List PoolOp) (c : PoolCore), Transition.run poolOpStep PoolCore.new ops = some c →
      SegmentsReleased c.pool := by
  intro hall
  have heval : (Transition.run poolOpStep PoolCore.new adjacentRun).map
      (fun c => decide (0 < c.pool.segmentCount ∧ ∀ p ∈ segmentPages (c.pool.segments 0),
        p ∈ c.pool.dirtyList.pages)) = some true := by decide +kernel
  obtain ⟨c, hrun, hc⟩ := Option.map_eq_some_iff.mp heval
  obtain ⟨hcount, hdirty⟩ := of_decide_eq_true hc
  obtain ⟨p, hp, hnot, -⟩ := (hall adjacentRun c hrun).released 0 hcount
  exact hnot (hdirty p hp)

end ClMalloc
