import ClMalloc.PagePool

/-!
# Calls of `alloc_slab` that return nothing

`alloc_slab` looks for a free page in one critical section and, after mapping a segment
without the lock, for a free entry of the segment table in another. In between other threads
may register segments and return pages, and the second section does not look at the lists
again. A call that is refused by the page allocator saw an empty pool in its first section.
A call that finds the table full in its second section saw an empty pool and a full table in
its first, unless another thread took the last entry of the table in between.
-/

namespace ClMalloc

open Transition

/-- Both free lists are empty and the carving segment is used up. -/
def PoolState.NoFreePage (st : PoolState) : Prop :=
  st.dirtyList.pages = [] ∧ st.cleanList.pages = [] ∧ st.segmentEnd ≤ st.segmentCursor

/-- Whether a page is free can be computed. -/
instance (st : PoolState) : Decidable st.NoFreePage :=
  inferInstanceAs (Decidable (st.dirtyList.pages = [] ∧ st.cleanList.pages = [] ∧
    st.segmentEnd ≤ st.segmentCursor))

/-- The lists, the cursor and the segment table are the same; only counters differ. -/
structure SameTables (st st' : PoolState) : Prop where
  dirtyList : st'.dirtyList = st.dirtyList
  cleanList : st'.cleanList = st.cleanList
  segmentCursor : st'.segmentCursor = st.segmentCursor
  segmentEnd : st'.segmentEnd = st.segmentEnd
  carvingIdx : st'.carvingIdx = st.carvingIdx
  segments : st'.segments = st.segments
  segmentCount : st'.segmentCount = st.segmentCount
  segOutstanding : st'.segOutstanding = st.segOutstanding

/-- Nothing has changed. -/
theorem SameTables.refl (st : PoolState) : SameTables st st :=
  ⟨rfl, rfl, rfl, rfl, rfl, rfl, rfl, rfl⟩

variable {st st' : PoolState} {t base : ℕ}

/-- No page pops exactly when both lists are empty. -/
theorem popFree_eq_none :
    popFree st = none ↔ st.dirtyList.pages = [] ∧ st.cleanList.pages = [] := by
  unfold popFree PageFreeList.pop
  cases st.dirtyList.pages with
  | nil => cases st.cleanList.pages <;> simp
  | cons slab rest => simp

/-- The first section goes on to map a segment exactly when no page is free; it changes counters
only. -/
theorem allocSlabLocked_none (h : allocSlabLocked st = some (st', none)) :
    st.NoFreePage ∧ SameTables st st' := by
  unfold allocSlabLocked at h
  split at h
  · split at h <;> cases h
  · rename_i hpop
    obtain ⟨hdirty, hclean⟩ := popFree_eq_none.mp hpop
    simp only at h
    split at h
    · cases h
    · rename_i hcursor
      cases h
      exact ⟨⟨hdirty, hclean, not_lt.mp hcursor⟩, ⟨rfl, rfl, rfl, rfl, rfl, rfl, rfl, rfl⟩⟩

/-- The second section gives the segment back exactly when the table is full; it changes counters
only. -/
theorem allocSlabSlowLocked_none (h : allocSlabSlowLocked st base = (st', none)) :
    maxSegments ≤ st.segmentCount ∧ SameTables st st' := by
  unfold allocSlabSlowLocked at h
  simp only at h
  split at h
  · rename_i hfull
    cases h
    exact ⟨hfull, ⟨rfl, rfl, rfl, rfl, rfl, rfl, rfl, rfl⟩⟩
  · split at h <;> cases h

/-- The second section registers at most one segment. -/
theorem allocSlabSlowLocked_count (st : PoolState) (base : ℕ) :
    (allocSlabSlowLocked st base).1.segmentCount = st.segmentCount ∨
      (allocSlabSlowLocked st base).1.segmentCount = st.segmentCount + 1 := by
  unfold allocSlabSlowLocked
  simp only
  split
  · exact .inl rfl
  · split <;> exact .inr rfl

/-- `dealloc_slab` registers no segment. -/
theorem deallocSlabLocked_count {slab : ℕ} {outcome : DeallocOutcome}
    (h : deallocSlabLocked st slab = some (st', outcome)) : st'.segmentCount ≤ st.segmentCount := by
  unfold deallocSlabLocked at h
  simp only at h
  split at h <;> try contradiction
  rename_i seg _
  split at h
  · cases h
    exact Nat.sub_le _ _
  · split at h <;> cases h <;> exact le_rfl

variable {s s' s₀ s₁ s₂ s₃ : PagePool} {l last : PagePoolLabel} {before during : List PagePoolLabel}

/-- A thread in a call of the pool takes a step of that call. -/
theorem pagePoolStep_inCall (ht : l.thread = t) (hcall : s.core.call t ≠ .idle)
    (hstep : pagePoolStep s l = some s') :
    ∃ l' c, l = .core l' ∧ l'.thread = t ∧ poolStep s.core l' = some c ∧ s' = { s with
      core := c } := by
  cases l with
  | core l =>
    obtain ⟨c, hc, rfl⟩ := Option.map_eq_some_iff.mp hstep
    exact ⟨l, c, rfl, ht, hc, rfl⟩
  | _ =>
    subst ht
    simp only [pagePoolStep] at hstep
    split at hstep <;> try contradiction
    all_goals
      rename_i hguard
      exact absurd hguard.1 hcall

/-- Only a second section of `alloc_slab` makes the table longer. -/
theorem PagePoolInv.count_le {kind : ℕ → PageKind (Tag Place)} (h : PagePoolInv s kind)
    (hlabel : ∀ t, l ≠ .core (.allocSlabSlow t)) (hstep : pagePoolStep s l = some s') :
    s'.core.pool.segmentCount ≤ s.core.pool.segmentCount := by
  cases l with
  | core l =>
    obtain ⟨c, hc, rfl⟩ := Option.map_eq_some_iff.mp hstep
    have hsection := poolStep_section hc
    generalize c.pool = pool at hsection ⊢
    cases hsection with
    | allocSlab heq =>
      rcases allocSlabLocked_spec h.core.pool (.owned 0) with
        ⟨slab, st, heq', -, -, -, htable | ⟨-, -, -, hcount, -⟩⟩ | ⟨heq', -⟩
      · cases heq'.symm.trans heq
        exact htable.count.le
      · cases heq'.symm.trans heq
        exact hcount.le
      · cases heq'.symm.trans heq
        exact le_rfl
    | @allocSlabSlow t => exact absurd rfl (hlabel t)
    | deallocSlab hp heq => exact deallocSlabLocked_count heq
    | purgeTake heq =>
      obtain ⟨st, taken, heq', -, -, -, htable⟩ := purgeTakeLocked_spec h.core.pool (.buffer 0)
      cases heq'.symm.trans heq
      exact htable.count.le
    | purgeReturn hcall heq =>
      obtain ⟨st, heq', -, htable⟩ := purgeReturnLocked_spec h.core.pool _ (h.core.buffer hcall).1
        (h.core.buffer hcall).2
      cases heq'.symm.trans heq
      exact htable.count.le
    | count => exact le_rfl
  | cacheSlab t page =>
    simp only [pagePoolStep] at hstep
    split at hstep <;> try contradiction
    unfold PagePool.cacheSlab at hstep
    split at hstep
    · obtain ⟨c, hc, rfl⟩ := Option.map_eq_some_iff.mp hstep
      unfold PoolCore.deallocSlab at hc
      split at hc <;> cases hc
      all_goals exact deallocSlabLocked_count ‹_›
    · cases hstep
      exact le_rfl
  | uncacheSlab t =>
    simp only [pagePoolStep] at hstep
    split at hstep <;> cases hstep
    unfold PagePool.uncacheSlab
    split <;> exact le_rfl
  | abandonSlab t classIdx page =>
    simp only [pagePoolStep] at hstep
    split at hstep <;> cases hstep
    exact le_rfl
  | adoptAll t classIdx =>
    simp only [pagePoolStep] at hstep
    split at hstep <;> cases hstep
    exact le_rfl

/-- A thread about to map gets an answer from the page allocator. -/
theorem step_of_mapping (hcall : s.core.call t = .mapping) (ht : l.thread = t)
    (hstep : pagePoolStep s l = some s') :
    s'.core.pool = s.core.pool ∧ s'.core.owned = s.core.owned ∧
      ((l = .core (.osAlloc t none) ∧ s'.core.call t = .idle) ∨
        ∃ base, l = .core (.osAlloc t (some base)) ∧ s'.core.call t = .mapped base) := by
  obtain ⟨l, c, rfl, rfl, hc, rfl⟩ := pagePoolStep_inCall ht (by simp [hcall]) hstep
  cases poolStep_cases hc with
  | osRefuse => exact ⟨rfl, rfl, .inl ⟨rfl, by simp [PoolCore.setCall, PoolLabel.thread]⟩⟩
  | @osAlloc t base =>
    exact ⟨rfl, rfl, .inr ⟨base, rfl, by simp [PoolCore.setCall, PoolLabel.thread]⟩⟩
  | osDealloc hreturning => simp_all [PoolLabel.thread, PoolCall.returning]
  | _ => simp_all [PoolLabel.thread]

/-- A thread that has mapped a segment registers it, or finds the table full. -/
theorem step_of_mapped (hcall : s.core.call t = .mapped base) (ht : l.thread = t)
    (hstep : pagePoolStep s l = some s') :
    l = .core (.allocSlabSlow t) ∧
      ((s'.core.call t = .idle ∧ s'.core.owned t ≠ s.core.owned t) ∨
        (s'.core.call t = .rejected base ∧ maxSegments ≤ s.core.pool.segmentCount ∧
          SameTables s.core.pool s'.core.pool)) := by
  obtain ⟨l, c, rfl, rfl, hc, rfl⟩ := pagePoolStep_inCall ht (by simp [hcall]) hstep
  cases poolStep_cases hc with
  | allocSlabSlow hmapped h =>
    refine ⟨rfl, .inl ⟨by simp [PoolCore.setCall, PoolLabel.thread], ?_⟩⟩
    simp [PoolCore.give, PoolCore.setCall, PoolLabel.thread]
  | allocSlabSlowNone hmapped h =>
    obtain rfl : _ = base := PoolCall.mapped.inj (hmapped.symm.trans hcall)
    obtain ⟨hfull, hsame⟩ := allocSlabSlowLocked_none h
    exact ⟨rfl, .inr ⟨by simp [PoolCore.setCall, PoolLabel.thread], hfull, hsame⟩⟩
  | osDealloc hreturning => simp_all [PoolLabel.thread, PoolCall.returning]
  | _ => simp_all [PoolLabel.thread]

/-- A thread that found the table full gives its segment back. -/
theorem step_of_rejected (hcall : s.core.call t = .rejected base) (ht : l.thread = t)
    (hstep : pagePoolStep s l = some s') :
    s'.core.pool = s.core.pool ∧ s'.core.call t = .idle ∧
      s'.core.os = s.core.os.dealloc base segmentSize ∧ ∀ reply, l ≠ .core (.osAlloc t reply) := by
  obtain ⟨l, c, rfl, rfl, hc, rfl⟩ := pagePoolStep_inCall ht (by simp [hcall]) hstep
  cases poolStep_cases hc with
  | osDealloc hreturning =>
    rw [PoolLabel.thread] at hcall
    rw [hcall] at hreturning
    cases hreturning
    exact ⟨rfl, by simp [PoolCore.osDealloc, PoolCore.setCall, PoolLabel.thread], rfl, by simp⟩
  | _ => simp_all [PoolLabel.thread]

/-- The step leaves the thread in its call. -/
def StaysInCall (t : ℕ) (s : PagePool) (l : PagePoolLabel) : Prop :=
  ∀ s', pagePoolStep s l = some s' → s'.core.call t ≠ .idle

/-- A step of the thread changes no list, cursor or table. -/
def KeepsTables (t : ℕ) (s : PagePool) (l : PagePoolLabel) : Prop :=
  l.thread = t → ∀ s', pagePoolStep s l = some s' → SameTables s.core.pool s'.core.pool

/-- The thread has left the first section of `alloc_slab` and not entered the second. -/
def BetweenSections (t : ℕ) (s : PagePool) : Prop :=
  s.core.call t = .mapping ∨ ∃ base, s.core.call t = .mapped base

/-- Between the thread's two sections no other thread takes the last entry of the segment table. -/
def LastEntryLeft (t : ℕ) (s : PagePool) : PagePoolLabel → Prop
  | .core (.allocSlabSlow t') =>
    t' ≠ t → BetweenSections t s → s.core.pool.segmentCount + 1 ≠ maxSegments
  | _ => True

/-- A call of `alloc_slab` that returns nothing: its first section, the steps of all threads until
its last one. -/
structure FailedAlloc (t : ℕ) (before during : List PagePoolLabel) (last : PagePoolLabel)
    (s₀ s₁ s₂ s₃ : PagePool) :
    Prop where
  reached : run pagePoolStep PagePool.new before = some s₀
  start : pagePoolStep s₀ (.core (.allocSlab t)) = some s₁
  mapping : s₁.core.call t ≠ .idle
  steps : run pagePoolStep s₁ during = some s₂
  inCall : Meets pagePoolStep (StaysInCall t) s₁ during
  own : last.thread = t
  finish : pagePoolStep s₂ last = some s₃
  returned : s₃.core.call t = .idle
  nothing : s₃.core.owned t = s₂.core.owned t

/-- How far the thread has come with its call, and the segment it has mapped; the table is full
before the second section, or was found full in it, only if `full`. -/
inductive AllocProgress (t : ℕ) (full : Prop) (during : List PagePoolLabel) (s : PagePool) : Prop
  | mapping (hcall : s.core.call t = .mapping) (hmaps : ∀ base,
      .core (.osAlloc t (some base)) ∉ during)
    (hfull : s.core.pool.segmentCount = maxSegments → full)
  | mapped (base : ℕ) (hcall : s.core.call t = .mapped base)
    (hmaps : ∀ base', .core (.osAlloc t (some base')) ∈ during → base' = base)
    (hfull : s.core.pool.segmentCount = maxSegments → full)
  | rejected (base : ℕ) (hcall : s.core.call t = .rejected base)
    (hmaps : ∀ base', .core (.osAlloc t (some base')) ∈ during → base' = base) (hfull : full)

variable {full : Prop} {kind : ℕ → PageKind (Tag Place)}

/-- Between the sections other threads fill the table only by taking its last entry. -/
theorem PagePoolInv.full_of_step (hinv : PagePoolInv s kind) (ht : l.thread ≠ t)
    (hbetween : BetweenSections t s) (hguard : full ∨ LastEntryLeft t s l)
    (hstep : pagePoolStep s l = some s') (hfull : s.core.pool.segmentCount = maxSegments → full)
    (hfull' : s'.core.pool.segmentCount = maxSegments) :
    full := by
  rcases hguard with hdone | hguard
  · exact hdone
  by_cases hlabel : ∃ t', l = .core (.allocSlabSlow t')
  · obtain ⟨t', rfl⟩ := hlabel
    obtain ⟨c, hc, rfl⟩ := Option.map_eq_some_iff.mp hstep
    have hsection := poolStep_section hc
    generalize c.pool = pool at hsection hfull'
    cases hsection with
    | @allocSlabSlow _ base =>
      rcases allocSlabSlowLocked_count s.core.pool base with hsame | hmore
      · exact hfull (hsame.symm.trans hfull')
      · exact absurd (hmore.symm.trans hfull') (hguard ht hbetween)
    | count => exact hfull hfull'
  · have hle := hinv.count_le (fun t' heq => hlabel ⟨t', heq⟩) hstep
    exact hfull (Nat.le_antisymm hinv.core.pool.count_le (hfull' ▸ hle))

/-- A step of another thread leaves the call where it is. -/
theorem AllocProgress.other (h : AllocProgress t full during s) (hinv : PagePoolInv s kind)
    (ht : l.thread ≠ t) (hguard : full ∨ LastEntryLeft t s l) (hstep : pagePoolStep s l = some s') :
    AllocProgress t full (during ++ [l]) s' := by
  have hframe := pagePoolStep_frame ht hstep
  have hmem (base : ℕ) : .core (.osAlloc t (some base)) ∈ during ++ [l] ↔
      .core (.osAlloc t (some base)) ∈ during := by
    rw [List.mem_append, List.mem_singleton, or_iff_left]
    rintro rfl
    exact ht rfl
  cases h with
  | mapping hcall hmaps hfull =>
    exact .mapping (hframe.trans hcall) (fun base => (hmem base).not.mpr (hmaps base))
      (hinv.full_of_step ht (.inl hcall) hguard hstep hfull)
  | mapped base hcall hmaps hfull =>
    exact .mapped base (hframe.trans hcall) (fun base' hin => hmaps base' ((hmem base').mp hin))
      (hinv.full_of_step ht (.inr ⟨base, hcall⟩) hguard hstep hfull)
  | rejected base hcall hmaps hfull =>
    exact .rejected base (hframe.trans hcall)
      (fun base' hin => hmaps base' ((hmem base').mp hin)) hfull

/-- A step of the thread that does not end the call takes it one point further and changes no
table. -/
theorem AllocProgress.own (h : AllocProgress t full during s) (hinv : PagePoolInv s kind)
    (ht : l.thread = t) (hstep : pagePoolStep s l = some s') (hstays : s'.core.call t ≠ .idle) :
    SameTables s.core.pool s'.core.pool ∧ AllocProgress t full (during ++ [l]) s' := by
  cases h with
  | mapping hcall hmaps hfull =>
    obtain ⟨hpool, -, ⟨rfl, hidle⟩ | ⟨base, rfl, hcall'⟩⟩ := step_of_mapping hcall ht hstep
    · exact absurd hidle hstays
    · refine ⟨hpool ▸ .refl _, .mapped base hcall' (fun base' hin => ?_) (hpool ▸ hfull)⟩
      rcases List.mem_append.mp hin with hin | hin
      · exact absurd hin (hmaps base')
      · cases List.mem_singleton.mp hin
        rfl
  | mapped base hcall hmaps hfull =>
    obtain ⟨rfl, ⟨hidle, -⟩ | ⟨hcall', htable, hsame⟩⟩ := step_of_mapped hcall ht hstep
    · exact absurd hidle hstays
    · have hcount : s.core.pool.segmentCount = maxSegments :=
        Nat.le_antisymm hinv.core.pool.count_le htable
      refine ⟨hsame, .rejected base hcall' (fun base' hin => ?_) (hfull hcount)⟩
      rcases List.mem_append.mp hin with hin | hin
      · exact hmaps base' hin
      · cases List.mem_singleton.mp hin
  | rejected base hcall hmaps hfull =>
    obtain ⟨-, hidle, -, -⟩ := step_of_rejected hcall ht hstep
    exact absurd hidle hstays

/-- The accounting holds after any run from a state where it holds. -/
theorem PagePoolInv.run (h : PagePoolInv s₁ kind) (hrun : run pagePoolStep s₁ during = some s₂) :
    ∃ kind', PagePoolInv s₂ kind' := by
  refine run_invariant (I := fun s => ∃ kind, PagePoolInv s kind) ?_ ⟨kind, h⟩ hrun
  rintro s l s' ⟨kind, hs⟩ hstep
  exact hs.step hstep

/-- Until it returns the thread is in its call, and its steps change no table. -/
theorem allocProgress_run (full : Prop) (hinv : PagePoolInv s₁ kind)
    (hcall : s₁.core.call t = .mapping) (hrun : run pagePoolStep s₁ during = some s)
    (hstays : Meets pagePoolStep (StaysInCall t) s₁ during)
    (hfull : s₁.core.pool.segmentCount = maxSegments → full)
    (hguard : full ∨ Meets pagePoolStep (LastEntryLeft t) s₁ during) :
    AllocProgress t full during s ∧ Meets pagePoolStep (KeepsTables t) s₁ during := by
  -- induction from the end: how far the call has come is a fact about the last state
  induction during using List.reverseRecOn generalizing s with
  | nil =>
    obtain rfl := Option.some.inj hrun
    exact ⟨.mapping hcall (by simp) hfull, trivial⟩
  | append_singleton during l ih =>
    rw [run_append] at hrun
    obtain ⟨mid, hmid, hlast⟩ := Option.bind_eq_some_iff.mp hrun
    obtain ⟨s', hstep, hs'⟩ := run_cons_eq_some.mp hlast
    obtain rfl := Option.some.inj hs'
    obtain ⟨hstays, hstaysLast⟩ := meets_append.mp hstays
    obtain ⟨hprogress, hkeeps⟩ := ih hmid hstays (hguard.imp_right fun h => (meets_append.mp h).1)
    obtain ⟨kind', hinv'⟩ := hinv.run hmid
    by_cases ht : l.thread = t
    · obtain ⟨hsame, hnext⟩ := hprogress.own hinv' ht hstep ((hstaysLast mid hmid).1 s' hstep)
      refine ⟨hnext, meets_append.mpr ⟨hkeeps, fun s hs => ?_⟩⟩
      obtain rfl := Option.some.inj (hmid.symm.trans hs)
      refine ⟨fun _ s'' hs'' => ?_, fun _ _ => trivial⟩
      obtain rfl := Option.some.inj (hstep.symm.trans hs'')
      exact hsame
    · have hguardLast : full ∨ LastEntryLeft t mid l := by
        rcases hguard with hdone | hguard
        · exact .inl hdone
        · exact .inr ((meets_append.mp hguard).2 mid hmid).1
      refine ⟨hprogress.other hinv' ht hguardLast hstep, meets_append.mpr ⟨hkeeps, fun s _ => ?_⟩⟩
      exact ⟨fun hown => absurd hown ht, fun _ _ => trivial⟩

/-- A call that returns nothing saw an exhausted pool, changed no table and gave its segment
back. -/
structure FailureJustified (t : ℕ) (during : List PagePoolLabel) (last : PagePoolLabel)
    (s₀ s₁ s₂ s₃ : PagePool) :
    Prop where
  exhausted : ∃ first rest s, during = first ++ rest ∧ run pagePoolStep s₁ first = some s ∧
    s.core.pool.NoFreePage ∧
    (s.core.pool.segmentCount = maxSegments ∨ last = .core (.osAlloc t none))
  unchanged : Meets pagePoolStep (KeepsTables t) s₀ (.core (.allocSlab t) :: during ++ [last])
  givenBack : ∀ base, .core (.osAlloc t (some base)) ∈ during →
    s₂.core.os.Holds base segmentExtent ∧ ∀ extent, ¬s₃.core.os.Holds base extent

/-- The first section of a call that goes on saw no free page and changed no table. -/
theorem FailedAlloc.first (h : FailedAlloc t before during last s₀ s₁ s₂ s₃) :
    s₀.core.pool.NoFreePage ∧ SameTables s₀.core.pool s₁.core.pool ∧ s₁.core.call t = .mapping := by
  have hstep := h.start
  have hopen := h.mapping
  simp only [pagePoolStep, poolStep] at hstep
  split at hstep <;> try contradiction
  rename_i hidle
  obtain ⟨c, hc, rfl⟩ := Option.map_eq_some_iff.mp hstep
  obtain ⟨⟨c₁, result⟩, hsection, rfl⟩ := Option.map_eq_some_iff.mp hc
  unfold PoolCore.allocSlab at hsection
  split at hsection <;> try contradiction
  · cases hsection
    exact absurd hidle hopen
  · rename_i heq
    cases hsection
    obtain ⟨hempty, hsame⟩ := allocSlabLocked_none heq
    exact ⟨hempty, hsame, by simp [PoolCore.setCall]⟩

/-- No page is free in tables that are the same. -/
theorem PoolState.NoFreePage.congr (h : st.NoFreePage) (hsame : SameTables st st') :
    st'.NoFreePage := by
  unfold PoolState.NoFreePage
  rw [hsame.dirtyList, hsame.cleanList, hsame.segmentCursor, hsame.segmentEnd]
  exact h

/-- A call that returns nothing ends with a refusal of the page allocator, or gives back the segment
it mapped. -/
theorem AllocProgress.finish (h : AllocProgress t full during s₂) (ht : last.thread = t)
    (hstep : pagePoolStep s₂ last = some s₃) (hreturned : s₃.core.call t = .idle)
    (hnothing : s₃.core.owned t = s₂.core.owned t) :
    s₃.core.pool = s₂.core.pool ∧
      ((last = .core (.osAlloc t none) ∧ ∀ base, .core (.osAlloc t (some base)) ∉ during) ∨
        ∃ base, s₂.core.call t = .rejected base ∧ s₃.core.os = s₂.core.os.dealloc base segmentSize ∧
          (∀ base', .core (.osAlloc t (some base')) ∈ during → base' = base) ∧ full) := by
  cases h with
  | mapping hcall hmaps hfull =>
    obtain ⟨hpool, -, ⟨hlabel, -⟩ | ⟨base, -, hmapped⟩⟩ := step_of_mapping hcall ht hstep
    · exact ⟨hpool, .inl ⟨hlabel, hmaps⟩⟩
    · simp [hreturned] at hmapped
  | mapped base hcall hmaps hfull =>
    obtain ⟨-, ⟨-, hgiven⟩ | ⟨hcall', -, -⟩⟩ := step_of_mapped hcall ht hstep
    · exact absurd hnothing hgiven
    · simp [hreturned] at hcall'
  | rejected base hcall hmaps hfull =>
    obtain ⟨hpool, -, hos, -⟩ := step_of_rejected hcall ht hstep
    exact ⟨hpool, .inr ⟨base, hcall, hos, hmaps, hfull⟩⟩

/-- The pool on its own, with an empty cache and no abandoned slab. -/
def PagePool.ofCore (c : PoolCore) : PagePool := { PagePool.new with core := c }

/-- The steps of the critical sections are steps of the pool. -/
theorem pagePoolStep_ofCore {c c' : PoolCore} {l : PoolLabel} (h : poolStep c l = some c') :
    pagePoolStep (.ofCore c) (.core l) = some (.ofCore c') := by
  simp [pagePoolStep, PagePool.ofCore, h]

/-- The label is an answer with a segment, or a step of another thread. -/
def KeepsCall (t : ℕ) (l : PoolLabel) : Prop :=
  (∃ t' base, l = .osAlloc t' (some base)) ∨ l.thread ≠ t

/-- Such a step ends no call of the thread. -/
theorem call_ne_idle_step {l : PoolLabel} (h : s.core.call t ≠ .idle) (hlabel : KeepsCall t l)
    (hstep : pagePoolStep s (.core l) = some s') : s'.core.call t ≠ .idle := by
  by_cases ht : l.thread = t
  · obtain ⟨t', base, rfl⟩ | ht' := hlabel
    · subst ht
      obtain ⟨c, hc, rfl⟩ := Option.map_eq_some_iff.mp hstep
      cases poolStep_cases hc
      simp [PoolCore.setCall, PoolLabel.thread]
    · exact absurd ht ht'
  · rw [pagePoolStep_frame (l := .core l) ht hstep]
    exact h

/-- A run of the critical sections in which the thread finds the table full is a call that returns
nothing. -/
theorem failedAlloc_ofCore {c₀ c₁ c₂ c₃ : PoolCore} {before during : List PoolLabel}
    (hreached : run poolStep PoolCore.new before = some c₀)
    (hstart : poolStep c₀ (.allocSlab t) = some c₁) (hmapping : c₁.call t = .mapping)
    (hkeeps : ∀ l ∈ during, KeepsCall t l)
    (hsteps : run poolStep c₁ (during ++ [.allocSlabSlow t]) = some c₂)
    (hrejected : c₂.call t ≠ .idle) (hfinish : poolStep c₂ (.osDealloc t) = some c₃)
    (hreturned : c₃.call t = .idle) (hnothing : c₃.owned = c₂.owned) :
    FailedAlloc t (before.map .core) ((during ++ [PoolLabel.allocSlabSlow t]).map .core)
      (.core (.osDealloc t)) (.ofCore c₀) (.ofCore c₁) (.ofCore c₂) (.ofCore c₃) where
  reached := run_map (f := PagePoolLabel.core) (g := PagePool.ofCore)
    (fun _ _ _ => pagePoolStep_ofCore) hreached
  start := pagePoolStep_ofCore hstart
  mapping := by simp [PagePool.ofCore, hmapping]
  steps := run_map (f := PagePoolLabel.core) (g := PagePool.ofCore)
    (fun _ _ _ => pagePoolStep_ofCore) hsteps
  inCall := by
    rw [List.map_append]
    refine meets_append.mpr ⟨meets_of_keeps (I := fun s : PagePool => s.core.call t ≠ .idle) ?_ ?_,
      fun s hs => ?_⟩
    · rintro a ha s s' hs hstep
      obtain ⟨l, hl, rfl⟩ := List.mem_map.mp ha
      exact call_ne_idle_step hs (hkeeps l hl) hstep
    · simp [PagePool.ofCore, hmapping]
    · have hsteps' := run_map (f := PagePoolLabel.core) (g := PagePool.ofCore)
        (fun _ _ _ => pagePoolStep_ofCore) hsteps
      rw [List.map_append, run_append, hs] at hsteps'
      obtain ⟨s', hstep, hs'⟩ := run_cons_eq_some.mp hsteps'
      refine ⟨fun s'' hs'' => ?_, fun _ _ => trivial⟩
      obtain rfl := Option.some.inj (hstep.symm.trans hs'')
      obtain rfl := Option.some.inj hs'
      exact hrejected
  own := rfl
  finish := pagePoolStep_ofCore hfinish
  returned := hreturned
  nothing := congrFun hnothing t

/-- The segment mapped when `i` others are mapped. -/
def fillBase (i : ℕ) : ℕ := (i + 1) * segmentSize

/-- Thread 0 maps a segment and takes all its pages. -/
def drainSegment (i : ℕ) : List PoolLabel :=
  [.allocSlab 0, .osAlloc 0 (some (fillBase i)),
    .allocSlabSlow 0] ++ List.replicate 31 (.allocSlab 0)

/-- Thread 0 maps `k` segments and takes all their pages. -/
def drainRun (k : ℕ) : List PoolLabel := (List.range k).flatMap drainSegment

/-- Thread 0 has the pages of `k` segments, but for the last `n` of the segment being carved. -/
structure Draining (c : PoolCore) (k n : ℕ) : Prop where
  call : c.call = fun _ => .idle
  dirty : c.pool.dirtyList = .empty
  clean : c.pool.cleanList = .empty
  cursor : c.pool.segmentCursor + n * slabSize = c.pool.segmentEnd
  count : c.pool.segmentCount = k
  below : ∀ r ∈ c.os.regions, r.base + r.extent.size ≤ fillBase k
  first : 0 < k → c.pool.carvingIdx + 1 = k ∧ c.pool.segments 0 = fillBase 0 ∧
    fillBase 0 ∈ c.owned 0 ∧ c.pool.segOutstanding 0 = if k = 1 then 32 - n else 32

/-- A new pool has no segment. -/
theorem draining_new : Draining .new 0 0 where
  call := rfl
  dirty := rfl
  clean := rfl
  cursor := rfl
  count := rfl
  below := by simp [PoolCore.new, PageOs.new]
  first := by simp

variable {c : PoolCore} {k n : ℕ}

/-- When all pages are handed out none is free. -/
theorem Draining.noFreePage (h : Draining c k 0) : c.pool.NoFreePage := by
  refine ⟨by rw [h.dirty]; rfl, by rw [h.clean]; rfl, ?_⟩
  have hcursor := h.cursor
  omega

/-- With no page free the first section goes on to map. -/
theorem PoolState.NoFreePage.allocSlabLocked (h : st.NoFreePage) :
    allocSlabLocked st = some (st.countLock, none) := by
  have hpop : popFree st.countLock = none := popFree_eq_none.mpr ⟨h.1, h.2.1⟩
  have hcursor : ¬st.countLock.segmentCursor < st.countLock.segmentEnd := not_lt.mpr h.2.2
  simp [ClMalloc.allocSlabLocked, hpop, hcursor]

/-- The next uncarved page is handed out. -/
theorem Draining.carve (h : Draining c k (n + 1)) (hk : 0 < k) (hn : n < 31) :
    ∃ c', poolStep c (.allocSlab 0) = some c' ∧ Draining c' k n := by
  have hcursor := h.cursor
  have hlt : c.pool.segmentCursor < c.pool.segmentEnd := by
    simp only [slabSize] at hcursor
    omega
  obtain ⟨hcarving, hsegment, howned, hout⟩ := h.first hk
  refine ⟨PoolCore.give { c with pool := { c.pool.countLock.incOutstanding c.pool.carvingIdx with
    segmentCursor := c.pool.segmentCursor + slabSize
    outstandingSlabs := c.pool.outstandingSlabs + 1 } } 0 c.pool.segmentCursor, ?_, ?_⟩
  · have hpop : popFree c.pool.countLock = none := by
      simp [popFree, PageFreeList.pop, PoolState.countLock, h.dirty, h.clean, PageFreeList.empty]
    have hsection : ClMalloc.allocSlabLocked c.pool =
        some ({ c.pool.countLock.incOutstanding c.pool.carvingIdx with
        segmentCursor := c.pool.segmentCursor + slabSize
        outstandingSlabs := c.pool.outstandingSlabs + 1 }, some c.pool.segmentCursor) := by
      unfold ClMalloc.allocSlabLocked
      rw [hpop]
      exact if_pos hlt
    simp [poolStep, h.call, PoolCore.allocSlab, hsection]
  · refine ⟨h.call, h.dirty, h.clean, ?_, h.count, h.below, fun _ => ⟨hcarving, hsegment, ?_, ?_⟩⟩
    · change c.pool.segmentCursor + slabSize + n * slabSize = c.pool.segmentEnd
      rw [← hcursor, Nat.succ_mul]
      omega
    · simp [PoolCore.give, howned]
    · change Function.update c.pool.segOutstanding c.pool.carvingIdx _ 0 = _
      by_cases hone : k = 1
      · have hzero : c.pool.carvingIdx = 0 := by omega
        rw [if_pos hone] at hout
        rw [hzero, Function.update_self, if_pos hone]
        change u8Inc (c.pool.segOutstanding 0) = _
        rw [hout, u8Inc]
        omega
      · rw [Function.update_of_ne (by omega), hout, if_neg hone, if_neg hone]

/-- All uncarved pages are handed out. -/
theorem Draining.carveAll (h : Draining c k n) (hk : 0 < k) (hn : n ≤ 31) :
    ∃ c', run poolStep c (List.replicate n (.allocSlab 0)) = some c' ∧ Draining c' k 0 := by
  induction n generalizing c with
  | zero => exact ⟨c, rfl, h⟩
  | succ n ih =>
    obtain ⟨c₁, hstep, h₁⟩ := h.carve hk (by omega)
    obtain ⟨c', hrun, h'⟩ := ih h₁ (by omega)
    exact ⟨c', run_cons_eq_some.mpr ⟨c₁, hstep, hrun⟩, h'⟩

/-- Segments lie one after the other. -/
theorem fillBase_succ (i : ℕ) : fillBase (i + 1) = fillBase i + segmentSize := by
  simp [fillBase, Nat.succ_mul]

/-- The page allocator can answer with the next segment. -/
theorem admits_fillBase {os : PageOs} {i j : ℕ}
    (hbelow : ∀ r ∈ os.regions, r.base + r.extent.size ≤ fillBase i) (hij : i ≤ j)
    (hj : j ≤ maxSegments + 1) : os.Admits (fillBase j) segmentSize slabSize := by
  have hle : fillBase i ≤ fillBase j := by
    simp only [fillBase]
    gcongr
  refine ⟨by simp [fillBase, segmentSize], ?_, ?_, fun r hr => .inr ((hbelow r hr).trans hle)⟩
  · exact Dvd.dvd.mul_left (by decide) _
  · simp only [fillBase, segmentSize, maxSegments] at hj ⊢
    omega

/-- The next segment lies below the one after it, as all regions do. -/
theorem below_alloc {os : PageOs} {i : ℕ}
    (hbelow : ∀ r ∈ os.regions, r.base + r.extent.size ≤ fillBase i) :
    ∀ r ∈ (os.alloc (fillBase i) segmentExtent).regions,
      r.base + r.extent.size ≤ fillBase (i + 1) := by
  intro r hr
  rw [fillBase_succ]
  rcases List.mem_cons.mp hr with rfl | hr
  · exact le_rfl
  · exact (hbelow r hr).trans (Nat.le_add_right _ _)

/-- A segment registered while no other is carved is the next one carved. -/
theorem allocSlabSlowLocked_carving (st : PoolState) (base : ℕ)
    (hroom : st.segmentCount < maxSegments) (hcursor : st.segmentEnd ≤ st.segmentCursor) :
    ∃ st', allocSlabSlowLocked st base = (st', some base) ∧ st'.dirtyList = st.dirtyList ∧
      st'.cleanList = st.cleanList ∧ st'.segmentCursor = base + slabSize ∧
        st'.segmentEnd = base + segmentSize ∧
      st'.segmentCount = st.segmentCount + 1 ∧ st'.carvingIdx = st.segmentCount ∧
      st'.segments = Function.update st.segments st.segmentCount base ∧
      st'.segOutstanding = Function.update st.segOutstanding st.segmentCount 1 := by
  refine ⟨(allocSlabSlowLocked st base).1, ?_⟩
  simp [allocSlabSlowLocked, PoolState.countLock, not_le.mpr hroom, not_lt.mpr hcursor]

/-- The next segment is mapped, and its first page handed out. -/
theorem Draining.map (h : Draining c k 0) (hk : k < maxSegments) :
    ∃ c', run poolStep c [.allocSlab 0, .osAlloc 0 (some (fillBase k)),
      .allocSlabSlow 0] = some c' ∧ Draining c' (k + 1) 31 := by
  have hadmits : c.os.Admits (fillBase k) segmentSize slabSize :=
    admits_fillBase h.below le_rfl (by omega)
  have hsection := h.noFreePage.allocSlabLocked
  have hcount₀ : c.pool.countLock.segmentCount = k := h.count
  obtain ⟨st, hslow, hdirty, hclean, hcursor, hend, hcount, hcarving, hsegments, hout⟩ :=
    allocSlabSlowLocked_carving c.pool.countLock (fillBase k) (hcount₀.trans_lt hk) h.noFreePage.2.2
  rw [hcount₀] at hcount hcarving hsegments hout
  obtain ⟨os, hos⟩ : ∃ os, os = c.os.alloc (fillBase k) segmentExtent := ⟨_, rfl⟩
  let mapping : PoolCore := ⟨c.pool.countLock, Function.update c.call 0 .mapping,
    c.owned, c.large, c.os⟩
  let mapped : PoolCore := ⟨c.pool.countLock, Function.update c.call 0 (.mapped (fillBase k)),
    c.owned, c.large, os⟩
  have hstart : poolStep c (.allocSlab 0) = some mapping := by
    simp [poolStep, h.call, PoolCore.allocSlab, hsection, PoolCore.setCall, mapping]
  have hanswer : poolStep mapping (.osAlloc 0 (some (fillBase k))) = some mapped := by
    simp [poolStep, PoolCore.osAlloc, hadmits, PoolCore.setCall, mapping, mapped, hos]
  have hregister : poolStep mapped (.allocSlabSlow 0) =
      some ⟨st, fun _ => .idle, Function.update c.owned 0 (fillBase k :: c.owned 0),
        c.large, os⟩ := by
    simp [poolStep, PoolCore.allocSlabSlow, hslow, PoolCore.setCall, PoolCore.give, mapped, h.call]
  refine ⟨⟨st, fun _ => .idle, Function.update c.owned 0 (fillBase k :: c.owned 0), c.large, os⟩,
    ?_, ?_⟩
  · rw [run, hstart, Option.bind_some, run, hanswer, Option.bind_some, run, hregister,
      Option.bind_some, run]
  · refine ⟨rfl, hdirty.trans h.dirty, hclean.trans h.clean, ?_, hcount, hos ▸ below_alloc h.below,
      fun _ => ⟨?_, ?_, ?_, ?_⟩⟩
    · change st.segmentCursor + 31 * slabSize = st.segmentEnd
      have hpages : slabSize + 31 * slabSize = segmentSize := by decide
      rw [hcursor, hend, Nat.add_assoc, hpages]
    · rw [hcarving]
    · rw [hsegments]
      rcases Nat.eq_zero_or_pos k with rfl | hpos
      · exact Function.update_self _ _ _
      · rw [Function.update_of_ne hpos.ne]
        exact (h.first hpos).2.1
    · change fillBase 0 ∈ Function.update c.owned 0 (fillBase k :: c.owned 0) 0
      rw [Function.update_self]
      rcases Nat.eq_zero_or_pos k with rfl | hpos
      · exact List.mem_cons_self
      · exact List.mem_cons_of_mem _ (h.first hpos).2.2.1
    · rw [hout]
      rcases Nat.eq_zero_or_pos k with rfl | hpos
      · rfl
      · have hfirst : c.pool.countLock.segOutstanding 0 = if k = 1 then 32 - 0 else 32 :=
          (h.first hpos).2.2.2
        rw [Function.update_of_ne hpos.ne, hfirst, Nat.sub_zero, ite_self, if_neg (by omega)]

/-- The pages of any number of segments can be handed out. -/
theorem drained_drainRun (hk : k ≤ maxSegments) :
    ∃ c, run poolStep PoolCore.new (drainRun k) = some c ∧ Draining c k 0 := by
  induction k with
  | zero => exact ⟨.new, rfl, draining_new⟩
  | succ k ih =>
    obtain ⟨c, hrun, h⟩ := ih (Nat.le_of_succ_le hk)
    obtain ⟨c₁, hmap, h₁⟩ := h.map hk
    obtain ⟨c₂, hcarve, h₂⟩ := h₁.carveAll k.succ_pos le_rfl
    refine ⟨c₂, ?_, h₂⟩
    rw [drainRun, List.range_succ, List.flatMap_append, run_append, ← drainRun, hrun,
      Option.bind_some, List.flatMap_singleton, drainSegment, run_append, hmap,
      Option.bind_some, hcarve]

/-- A page of a segment that is handed out whole goes to the dirty list. -/
theorem deallocSlabLocked_first {slab : ℕ} (hdirty : st.dirtyList = .empty)
    (hcount : 0 < st.segmentCount) (hsegment : st.segments 0 = slab)
    (hout : st.segOutstanding 0 = 32) :
    ∃ st', deallocSlabLocked st slab = some (st', .done) ∧ st'.dirtyList.pages = [slab] ∧
      st'.segmentCount = st.segmentCount := by
  have hfind (st' : PoolState) (hcount' : st'.segmentCount = st.segmentCount)
      (hsegments : st'.segments = st.segments) :
      findSegment st' slab = some 0 := by
    obtain ⟨n, hn⟩ := Nat.exists_eq_succ_of_ne_zero hcount.ne'
    simp [findSegment, hcount', hn, List.range_succ_eq_map, hsegments, hsegment,
      inSegment, segmentSize]
  refine ⟨{ PoolState.decOutstanding { st.countLock with
    dirtyList := st.dirtyList.push slab } 0 with
    outstandingSlabs := st.outstandingSlabs - 1 }, ?_, ?_, rfl⟩
  · have hstays : u8Dec 32 ≠ 0 := by decide
    simp [deallocSlabLocked, hfind, PoolState.decOutstanding, PoolState.countLock, hout, hstays,
      hdirty, PageFreeList.push, PageFreeList.empty, purgeHighWater]
  · simp [PoolState.decOutstanding, hdirty, PageFreeList.push, PageFreeList.empty]

/-- A second section that finds the table full gives its segment back. -/
theorem allocSlabSlowLocked_full (base : ℕ) (h : st.segmentCount = maxSegments) :
    ∃ st', allocSlabSlowLocked st base = (st', none) ∧ SameTables st st' := by
  obtain ⟨st', hst'⟩ : ∃ st', allocSlabSlowLocked st base = (st', none) := by
    simp [allocSlabSlowLocked, PoolState.countLock, h]
  exact ⟨st', hst', (allocSlabSlowLocked_none hst').2⟩

/-- Threads 1 and 2 are in `alloc_slab`, and thread 0 returns the first page of the first
segment. -/
def returnBetween : List PoolLabel :=
  [.allocSlab 2, .osAlloc 1 (some (fillBase maxSegments)),
    .osAlloc 2 (some (fillBase (maxSegments + 1))), .deallocSlab 0 (fillBase 0)]

/-- With all pages handed out and the table full two calls find nothing, although a page comes back
in between. -/
theorem Draining.twoCalls (h : Draining c maxSegments 0) :
    ∃ c₁ c₂ c₃ c₄, poolStep c (.allocSlab 1) = some c₁ ∧
    c₁.call 1 = .mapping ∧ run poolStep c₁ returnBetween = some c₂ ∧
      c₂.pool.segmentCount = maxSegments ∧
    run poolStep c₂ [.allocSlabSlow 2, .allocSlabSlow 1] = some c₃ ∧
      c₃.pool.dirtyList.pages = [fillBase 0] ∧
    c₃.call 1 ≠ .idle ∧ poolStep c₃ (.osDealloc 1) = some c₄ ∧ c₄.call 1 = .idle ∧
      c₄.owned = c₃.owned := by
  have hempty := h.noFreePage
  have hempty₁ : c.pool.countLock.NoFreePage := hempty
  obtain ⟨-, hsegment, howned, hout⟩ := h.first (by decide)
  have hcount : c.pool.countLock.countLock.segmentCount = maxSegments := h.count
  have hpos : 0 < c.pool.countLock.countLock.segmentCount := by
    rw [hcount]
    decide
  have hdirty₀ : c.pool.countLock.countLock.dirtyList = .empty := h.dirty
  obtain ⟨st, hdealloc, hdirty, hcount'⟩ := deallocSlabLocked_first hdirty₀ hpos hsegment hout
  obtain ⟨st₂, hslow₂, hsame₂⟩ := allocSlabSlowLocked_full (fillBase (maxSegments + 1))
    (hcount'.trans hcount)
  obtain ⟨st₁, hslow₁, hsame₁⟩ := allocSlabSlowLocked_full (fillBase maxSegments)
    (hsame₂.segmentCount.trans (hcount'.trans hcount))
  have hadmits₁ : c.os.Admits (fillBase maxSegments) segmentSize slabSize :=
    admits_fillBase h.below le_rfl (by omega)
  have hadmits₂ : (c.os.alloc (fillBase maxSegments) segmentExtent).Admits
      (fillBase (maxSegments + 1)) segmentSize slabSize :=
    admits_fillBase (below_alloc h.below) le_rfl le_rfl
  -- the states after the first section, after the return, and after both second sections
  obtain ⟨os, hos⟩ : ∃ os, os =
    (c.os.alloc (fillBase maxSegments) segmentExtent).alloc
      (fillBase (maxSegments + 1)) segmentExtent := ⟨_, rfl⟩
  let owned := Function.update c.owned 0 ((c.owned 0).erase (fillBase 0))
  let calls (call₁ call₂ : PoolCall) (t : ℕ) := if t = 1 then call₁ else if t = 2 then call₂
    else .idle
  refine ⟨⟨c.pool.countLock, calls .mapping .idle, c.owned, c.large, c.os⟩,
    ⟨st, calls (.mapped (fillBase maxSegments)) (.mapped (fillBase (maxSegments + 1))),
      owned, c.large, os⟩,
    ⟨st₁, calls (.rejected (fillBase maxSegments)) (.rejected (fillBase (maxSegments + 1))),
      owned, c.large, os⟩,
    ⟨st₁, calls .idle (.rejected (fillBase (maxSegments + 1))), owned, c.large,
      os.dealloc (fillBase maxSegments) segmentSize⟩,
    ?_, rfl, ?_, hcount'.trans hcount, ?_, ?_, by simp [calls], ?_, rfl, rfl⟩
  · simp only [poolStep, h.call, PoolCore.allocSlab, hempty.allocSlabLocked, PoolCore.setCall,
      Option.map_some, Option.some.injEq, PoolCore.mk.injEq, and_self, and_true, true_and]
    funext t
    by_cases ht : t = 1 <;> simp [calls, ht]
  · simp [returnBetween, run, poolStep, PoolCore.allocSlab, hempty₁.allocSlabLocked,
      PoolCore.setCall, PoolCore.osAlloc, hadmits₁, hadmits₂, PoolCore.deallocSlab, hdealloc,
      PoolCore.take, howned, calls, hos, owned]
    funext t
    simp only [Function.update_apply]
    grind
  · simp [run, poolStep, PoolCore.allocSlabSlow, hslow₁, hslow₂, PoolCore.setCall, calls]
    funext t
    simp only [Function.update_apply]
    grind
  · rw [hsame₁.dirtyList, hsame₂.dirtyList, hdirty]
  · simp only [poolStep, calls, PoolCore.osDealloc, PoolCore.setCall, if_pos, Option.some.injEq,
      PoolCore.mk.injEq, and_self, and_true, true_and]
    funext t
    by_cases ht : t = 1 <;> simp [ht]

/-- Every call of `alloc_slab` that returns nothing is justified, if between the sections of a call
that is not refused no other thread takes the last entry of the table. -/
theorem failed_alloc_justified (h : FailedAlloc t before during last s₀ s₁ s₂ s₃)
    (hguard : last ≠ .core (.osAlloc t none) → Meets pagePoolStep (LastEntryLeft t) s₁ during) :
    FailureJustified t during last s₀ s₁ s₂ s₃ := by
  obtain ⟨hempty, hsame, hcall⟩ := h.first
  obtain ⟨kind₀, hinv₀⟩ := pagePoolInv_run h.reached
  obtain ⟨kind₁, hinv₁⟩ := hinv₀.step h.start
  obtain ⟨hprogress, hkeeps⟩ := allocProgress_run
    (last = .core (.osAlloc t none) ∨ s₁.core.pool.segmentCount = maxSegments) hinv₁
    hcall h.steps h.inCall .inr
    (or_iff_not_imp_left.mpr fun hnot => hguard fun hlabel => hnot (.inl hlabel))
  obtain ⟨kind₂, hinv₂⟩ := hinv₁.run h.steps
  obtain ⟨hpool, hend⟩ := hprogress.finish h.own h.finish h.returned h.nothing
  refine ⟨⟨[], during, s₁, rfl, rfl, hempty.congr hsame, ?_⟩, ⟨fun _ s hs => ?_, fun s hs => ?_⟩,
    fun base hmap => ?_⟩
  · rcases hend with ⟨hlabel, -⟩ | ⟨base, -, -, -, hfull⟩
    · exact .inr hlabel
    · exact hfull.symm
  · obtain rfl := Option.some.inj (h.start.symm.trans hs)
    exact hsame
  · obtain rfl := Option.some.inj (h.start.symm.trans hs)
    refine meets_append.mpr ⟨hkeeps, fun s hs => ?_⟩
    obtain rfl := Option.some.inj (h.steps.symm.trans hs)
    refine ⟨fun _ s' hs' => ?_, fun _ _ => trivial⟩
    obtain rfl := Option.some.inj (h.finish.symm.trans hs')
    exact hpool ▸ .refl _
  · rcases hend with ⟨-, hmaps⟩ | ⟨base', hrejected, hos, hmaps, -⟩
    · exact absurd hmap (hmaps base)
    · obtain rfl := hmaps base hmap
      have hregion : s₂.core.Owns (.thread t) base segmentExtent := by
        simp [PoolCore.Owns, hrejected, PoolCall.region]
      have hheld := hinv₂.core.regions.holds hregion
      refine ⟨hheld, fun extent hstill => ?_⟩
      have hgone := (hinv₂.core.regions.contract.dealloc hheld).2 base extent
      rw [hos] at hstill
      exact (hgone.mp hstill).2 rfl

/-- What happens until thread 1 finds the table full; thread 2 finds it full before. -/
def crossedCalls : List PoolLabel := returnBetween ++ [.allocSlabSlow 2] ++ [.allocSlabSlow 1]

/-- Two calls find the pool empty and the table full; before their second sections thread 0 returns
a page. -/
theorem failed_alloc_justified_tableFull : ∃ s₀ s₁ s₂ s₃,
    FailedAlloc 1 ((drainRun maxSegments).map .core) (crossedCalls.map .core)
      (.core (.osDealloc 1)) s₀ s₁ s₂ s₃ ∧
    s₂.core.pool.dirtyList.pages = [fillBase 0] ∧
    FailureJustified 1 (crossedCalls.map .core) (.core (.osDealloc 1)) s₀ s₁ s₂ s₃ := by
  obtain ⟨c, hfill, hc⟩ := drained_drainRun (k := maxSegments) le_rfl
  obtain ⟨c₁, c₂, c₃, c₄, hstart, hmapping, hreturn, hcount, hslow, hdirty, hrejected, hfinish,
    hidle, howned⟩ := hc.twoCalls
  have hkeeps : ∀ l ∈ returnBetween ++ [PoolLabel.allocSlabSlow 2], KeepsCall 1 l := by
    simp [returnBetween, KeepsCall, PoolLabel.thread]
  have hsteps : run poolStep c₁ crossedCalls = some c₃ := by
    rw [crossedCalls, List.append_assoc, run_append, hreturn]
    exact hslow
  have hcall := failedAlloc_ofCore hfill hstart hmapping hkeeps hsteps hrejected
    hfinish hidle howned
  refine ⟨_, _, _, _, hcall, hdirty, failed_alloc_justified hcall fun _ => ?_⟩
  rw [crossedCalls, List.append_assoc, List.map_append]
  refine meets_append.mpr ⟨⟨trivial, fun _ _ =>
    ⟨trivial, fun _ _ => ⟨trivial, fun _ _ => ⟨trivial, fun _ _ => trivial⟩⟩⟩⟩, fun s hs => ?_⟩
  have hreturn' := run_map (f := PagePoolLabel.core) (g := PagePool.ofCore)
    (fun _ _ _ => pagePoolStep_ofCore) hreturn
  obtain rfl := Option.some.inj (hreturn'.symm.trans hs)
  refine ⟨fun _ _ => ?_, fun _ _ => ⟨fun hself => absurd rfl hself, fun _ _ => trivial⟩⟩
  change c₂.pool.segmentCount + 1 ≠ maxSegments
  omega

/-- The first sections of the calls of `n` threads. -/
def startRun (n : ℕ) : List PoolLabel := (List.range n).map .allocSlab

/-- The answers to the first `n` threads. -/
def answerRun (n : ℕ) : List PoolLabel := (List.range n).map fun t => .osAlloc t (some (fillBase t))

/-- The second sections of the first `n` threads. -/
def registerRun (n : ℕ) : List PoolLabel := (List.range n).map .allocSlabSlow

/-- The segments below the bound are held, and as many are registered and counted; the threads are
at the given points. -/
structure Filling (c : PoolCore) (registered bound : ℕ) (points : ℕ → PoolCall) : Prop where
  call : c.call = points
  count : c.pool.segmentCount = registered
  mmap : c.pool.metrics.segmentMmapCount = registered
  munmap : c.pool.metrics.segmentMunmapCount = 0
  empty : registered = 0 → c.pool.NoFreePage
  below : ∀ r ∈ c.os.regions, r.base + r.extent.size ≤ bound

/-- The first `n` threads wait for a segment, `k` of them have got it. -/
def answered (n k t : ℕ) : PoolCall :=
  if t < k then .mapped (fillBase t) else if t < n then .mapping else .idle

/-- Of the first `n` threads all but `k` have a segment and wait for the lock. -/
def waiting (n k t : ℕ) : PoolCall := if k ≤ t ∧ t < n then .mapped (fillBase t) else .idle

/-- Any number of threads can find the pool empty at once. -/
theorem filling_start (n : ℕ) : ∃ c, run poolStep PoolCore.new (startRun n) = some c ∧
    Filling c 0 segmentSize (answered n 0) := by
  induction n with
  | zero =>
    refine ⟨PoolCore.new, rfl, ?_, rfl, rfl, rfl, fun _ => ?_, ?_⟩
    · funext t
      simp [PoolCore.new, answered]
    · decide
    · simp [PoolCore.new, PageOs.new]
  | succ n ih =>
    obtain ⟨c, hrun, hc⟩ := ih
    obtain ⟨hdirty, hclean, hcursor⟩ := hc.empty rfl
    have hidle : c.call n = .idle := by simp [hc.call, answered]
    have hsection := PoolState.NoFreePage.allocSlabLocked ⟨hdirty, hclean, hcursor⟩
    refine ⟨{ c with pool := c.pool.countLock }.setCall n .mapping, ?_, ?_, hc.count,
      hc.mmap, hc.munmap, fun _ => ⟨hdirty, hclean, hcursor⟩, hc.below⟩
    · rw [startRun, List.range_succ, List.map_append, run_append, ← startRun, hrun]
      simp [run, poolStep, hidle, PoolCore.allocSlab, hsection]
    · funext t
      simp only [PoolCore.setCall, hc.call, Function.update_apply, answered]
      grind

/-- The page allocator can answer all waiting threads. -/
theorem filling_answer {c : PoolCore} {n k : ℕ} (hc : Filling c 0 segmentSize (answered n 0))
    (hk : k ≤ n) (hn : n ≤ maxSegments + 1) : ∃ c', run poolStep c (answerRun k) = some c' ∧
      Filling c' 0 (fillBase k) (answered n k) := by
  induction k with
  | zero =>
    refine ⟨c, rfl, ?_⟩
    simpa [fillBase] using hc
  | succ k ih =>
    obtain ⟨c', hrun, hc'⟩ := ih (by omega)
    have hmapping : c'.call k = .mapping := by simp [hc'.call, answered, Nat.lt_of_succ_le hk]
    have hadmits : c'.os.Admits (fillBase k) segmentSize slabSize :=
      admits_fillBase hc'.below le_rfl (by omega)
    refine ⟨{ c' with os := c'.os.alloc (fillBase k) segmentExtent }.setCall k
      (.mapped (fillBase k)), ?_, ?_, hc'.count, hc'.mmap, hc'.munmap, hc'.empty,
      below_alloc hc'.below⟩
    · rw [answerRun, List.range_succ, List.map_append, run_append, ← answerRun, hrun]
      simp [run, poolStep, hmapping, PoolCore.osAlloc, hadmits]
    · funext t
      simp only [PoolCore.setCall, hc'.call, Function.update_apply, answered]
      grind

/-- The second section registers the segment while the table has room. -/
theorem allocSlabSlowLocked_room (st : PoolState) (base : ℕ)
    (hroom : st.segmentCount < maxSegments) :
    ∃ st', allocSlabSlowLocked st base = (st', some base) ∧ st'.segmentCount = st.segmentCount + 1 ∧
      st'.metrics.segmentMmapCount = st.metrics.segmentMmapCount + 1 ∧
      st'.metrics.segmentMunmapCount = st.metrics.segmentMunmapCount ∧
        st'.segmentCursor < st'.segmentEnd := by
  have hroom' : ¬maxSegments ≤ st.segmentCount := not_le.mpr hroom
  by_cases hcursor : st.segmentCursor < st.segmentEnd
  · simp [allocSlabSlowLocked, PoolState.countLock, hroom', hcursor]
  · simp [allocSlabSlowLocked, PoolState.countLock, hroom', hcursor, slabSize, segmentSize]

/-- Threads that all have a segment register it until the table is full. -/
theorem filling_register {c : PoolCore} {n k bound : ℕ} (hc : Filling c 0 bound (answered n n))
    (hk : k ≤ n) (hroom : k ≤ maxSegments) :
    ∃ c', run poolStep c (registerRun k) = some c' ∧ Filling c' k bound (waiting n k) := by
  induction k with
  | zero =>
    refine ⟨c, rfl, { hc with call := ?_ }⟩
    funext t
    simp only [hc.call, answered, waiting]
    grind
  | succ k ih =>
    obtain ⟨c', hrun, hc'⟩ := ih (by omega) (by omega)
    have hmapped : c'.call k = .mapped (fillBase k) := by
      simp [hc'.call, waiting, Nat.lt_of_succ_le hk]
    obtain ⟨st, hsection, hcount, hmmap, hmunmap, -⟩ :=
      allocSlabSlowLocked_room c'.pool (fillBase k) (by rw [hc'.count]; omega)
    refine ⟨({ c' with pool := st }.give k (fillBase k)).setCall k .idle, ?_, ?_, ?_, ?_,
      ?_, by simp, hc'.below⟩
    · rw [registerRun, List.range_succ, List.map_append, run_append, ← registerRun, hrun]
      simp [run, poolStep, hmapped, PoolCore.allocSlabSlow, hsection]
    · funext t
      simp only [PoolCore.setCall, PoolCore.give, hc'.call, Function.update_apply, waiting]
      grind
    · exact hcount.trans (congrArg (· + 1) hc'.count)
    · exact hmmap.trans (congrArg (· + 1) hc'.mmap)
    · exact hmunmap.trans hc'.munmap

/-- A segment is being carved once one is registered. -/
def PagePool.Carving (s : PagePool) : Prop :=
  s.core.pool.segmentCount = 0 ∨ s.core.pool.segmentCursor < s.core.pool.segmentEnd

/-- The label is an answer of the page allocator, a second section or the giving back of a
segment. -/
def IsSlowStep : PagePoolLabel → Prop
  | .core (.osAlloc _ _) | .core (.allocSlabSlow _) | .core (.osDealloc _) => True
  | _ => False

/-- The steps of `alloc_slab_slow` use up no page of a segment being carved. -/
theorem PagePool.Carving.step (h : s.Carving) (hlabel : IsSlowStep l)
    (hstep : pagePoolStep s l = some s') : s'.Carving := by
  unfold IsSlowStep at hlabel
  split at hlabel <;> try contradiction
  case h_1 t reply =>
    obtain ⟨c, hc, rfl⟩ := Option.map_eq_some_iff.mp hstep
    cases poolStep_cases hc <;> exact h
  case h_2 t =>
    obtain ⟨c, hc, rfl⟩ := Option.map_eq_some_iff.mp hstep
    cases poolStep_cases hc with
    | @allocSlabSlow _ base page pool hcall hsection =>
      have hroom : s.core.pool.segmentCount < maxSegments := by
        by_contra hfull
        simp [allocSlabSlowLocked, PoolState.countLock, not_lt.mp hfull] at hsection
      obtain ⟨st, hst, -, -, -, hcursor⟩ := allocSlabSlowLocked_room _ base hroom
      rw [hsection] at hst
      cases hst
      exact .inr hcursor
    | allocSlabSlowNone hcall hsection =>
      obtain ⟨-, hsame⟩ := allocSlabSlowLocked_none hsection
      simp only [PagePool.Carving, PoolCore.setCall]
      rw [hsame.segmentCount, hsame.segmentCursor, hsame.segmentEnd]
      exact h
  case h_3 t =>
    obtain ⟨c, hc, rfl⟩ := Option.map_eq_some_iff.mp hstep
    cases poolStep_cases hc
    exact h

/-- More threads map at once than the table has room for: the last one gives its segment back. -/
theorem overfull_run : ∃ c₀ c₁ c₂ c₃, run poolStep PoolCore.new (startRun maxSegments) = some c₀ ∧
    c₀.pool.segmentCount = 0 ∧ poolStep c₀ (.allocSlab maxSegments) = some c₁ ∧
      c₁.pool.segmentCount = 0 ∧
    c₁.call maxSegments = .mapping ∧
    run poolStep c₁ (answerRun (maxSegments + 1) ++ registerRun maxSegments ++
      [.allocSlabSlow maxSegments]) = some c₂ ∧
    c₂.call maxSegments ≠ .idle ∧ poolStep c₂ (.osDealloc maxSegments) = some c₃ ∧
      c₃.owned = c₂.owned ∧
      (∀ t, c₃.call t = .idle) ∧
    c₃.pool.segmentCount = maxSegments ∧ c₃.pool.metrics.segmentMmapCount = maxSegments + 1 ∧
    c₃.pool.metrics.segmentMunmapCount = 0 := by
  obtain ⟨c₀, hstart, hc₀⟩ := filling_start maxSegments
  obtain ⟨c₁, hstart₁, hc₁⟩ := filling_start (maxSegments + 1)
  rw [startRun, List.range_succ, List.map_append, run_append, ← startRun, hstart] at hstart₁
  obtain ⟨c, hlast, hc⟩ := run_cons_eq_some.mp hstart₁
  obtain rfl := Option.some.inj hc
  obtain ⟨c', hanswer, hc'⟩ := filling_answer hc₁ le_rfl le_rfl
  obtain ⟨c'', hregister, hc''⟩ := filling_register hc' (Nat.le_succ _) le_rfl
  have hmapped : c''.call maxSegments = .mapped (fillBase maxSegments) := by
    simp [hc''.call, waiting]
  obtain ⟨st, hsection, hmmap, hmunmap⟩ :
    ∃ st, allocSlabSlowLocked c''.pool (fillBase maxSegments) = (st, none) ∧
      st.metrics.segmentMmapCount = c''.pool.metrics.segmentMmapCount + 1 ∧
      st.metrics.segmentMunmapCount = c''.pool.metrics.segmentMunmapCount := by
    simp [allocSlabSlowLocked, PoolState.countLock, hc''.count]
  obtain ⟨-, hsame⟩ := allocSlabSlowLocked_none hsection
  let rejected := { c'' with pool := st }.setCall maxSegments (.rejected (fillBase maxSegments))
  refine ⟨c₀, c, rejected, rejected.osDealloc maxSegments (fillBase maxSegments) segmentSize,
    hstart, hc₀.count, hlast, hc₁.count, by simp [hc₁.call, answered], ?_,
    by simp [PoolCore.setCall, rejected], ?_, rfl, fun t => ?_, hsame.segmentCount.trans hc''.count,
    hmmap.trans (congrArg (· + 1) hc''.mmap), hmunmap.trans hc''.munmap⟩
  · rw [run_append, run_append, hanswer, Option.bind_some, hregister]
    simp [run, poolStep, hmapped, PoolCore.allocSlabSlow, hsection, rejected]
  · simp [poolStep, PoolCore.setCall, rejected]
  · simp only [PoolCore.osDealloc, PoolCore.setCall, hc''.call, Function.update_apply,
      waiting, rejected]
    grind

/-- While a segment is being carved a page is free. -/
theorem PagePool.Carving.not_exhausted (h : s.Carving) :
    ¬(s.core.pool.NoFreePage ∧ s.core.pool.segmentCount = maxSegments) := by
  rintro ⟨⟨-, -, hcursor⟩, hcount⟩
  rcases h with h | h
  · rw [h] at hcount
    cases hcount
  · exact absurd h (not_lt.mpr hcursor)

/-- Steps of `alloc_slab_slow` find no state in which no page is free and the table is full. -/
theorem PagePool.Carving.run {labels : List PagePoolLabel} (h : s.Carving)
    (hlabels : ∀ l ∈ labels, IsSlowStep l) (hrun : run pagePoolStep s labels = some s') :
    s'.Carving := by
  induction labels generalizing s with
  | nil =>
    obtain rfl := Option.some.inj hrun
    exact h
  | cons l rest ih =>
    obtain ⟨mid, hmid, hrest⟩ := run_cons_eq_some.mp hrun
    exact ih (h.step (hlabels l List.mem_cons_self) hmid)
      (fun l hl => hlabels l (List.mem_cons_of_mem _ hl)) hrest

/-- A call that returns nothing although a page was free whenever the table was full. -/
theorem failed_alloc_unjustified : ∃ before during last s₀ s₁ s₂ s₃,
    FailedAlloc maxSegments before during last s₀ s₁ s₂ s₃ ∧
      last ≠ .core (.osAlloc maxSegments none) ∧
    ∀ first rest s, .core (.allocSlab maxSegments) :: during ++ [last] = first ++ rest →
      run pagePoolStep s₀ first = some s →
        ¬(s.core.pool.NoFreePage ∧ s.core.pool.segmentCount = maxSegments) := by
  obtain ⟨c₀, c₁, c₂, c₃, hreached, hcount₀, hstart, hcount₁, hmapping, hsteps, hrejected,
    hfinish, howned, hidle, -, -, -⟩ := overfull_run
  have hlabels : ∀ l ∈ answerRun (maxSegments + 1) ++ registerRun maxSegments,
      KeepsCall maxSegments l ∧ IsSlowStep (.core l) := by
    intro l hl
    rcases List.mem_append.mp hl with hl | hl
    · obtain ⟨t, -, rfl⟩ := List.mem_map.mp hl
      exact ⟨.inl ⟨t, _, rfl⟩, trivial⟩
    · obtain ⟨t, ht, rfl⟩ := List.mem_map.mp hl
      exact ⟨.inr (List.mem_range.mp ht).ne, trivial⟩
  generalize answerRun (maxSegments + 1) ++ registerRun maxSegments = during at hsteps hlabels
  generalize startRun maxSegments = before at hreached
  have hcall := failedAlloc_ofCore hreached hstart hmapping
    (fun l hl => (hlabels l hl).1) hsteps hrejected hfinish (hidle _) howned
  refine ⟨_, _, _, _, _, _, _, hcall, by simp, fun first rest s hsplit hrun => ?_⟩
  refine PagePool.Carving.not_exhausted ?_
  cases first with
  | nil =>
    obtain rfl := Option.some.inj hrun
    exact .inl hcount₀
  | cons l first =>
    rw [List.cons_append, List.cons_append, List.cons.injEq] at hsplit
    obtain ⟨rfl, hsplit⟩ := hsplit
    obtain ⟨mid, hmid, hrest⟩ := run_cons_eq_some.mp hrun
    obtain rfl := Option.some.inj (hcall.start.symm.trans hmid)
    refine PagePool.Carving.run (.inl hcount₁) (fun l hl => ?_) hrest
    have hin : l ∈ (during ++ [PoolLabel.allocSlabSlow maxSegments]).map PagePoolLabel.core ++
      [.core (.osDealloc maxSegments)] := by
      rw [hsplit]
      exact List.mem_append_left _ hl
    simp only [List.map_append, List.map_cons, List.map_nil, List.mem_append, List.mem_singleton,
      List.mem_map] at hin
    obtain (⟨l', hl', rfl⟩ | rfl) | rfl := hin
    · exact (hlabels l' hl').2
    · trivial
    · trivial

end ClMalloc
