import ClMalloc.PoolReclaim
import ClMalloc.SlabCacheInvariant

/-!
# Reading the link of a page whose segment is gone

`uncache_slab` reads the link of the head it loaded before it knows that the page is still
cached. In between, another thread can pop the page and return it, and when it was the last
outstanding page of its segment, the segment is released. In a run where no successful pop
uses a stale link and no segment is released under a thread about to read one of its pages,
every link read is from a registered segment.
-/

namespace ClMalloc

open Intrusive

/-- The address lies in a registered segment. -/
def PoolState.Registered (st : PoolState) (addr : ℕ) : Prop :=
  ∃ i < st.segmentCount, inSegment (st.segments i) addr = true

/-- `dealloc_slab` of the page would release the segment that contains the address. -/
def PoolState.ReleasesSegmentOf (st : PoolState) (page addr : ℕ) : Prop :=
  ∃ seg, findSegment st page = some seg ∧ st.segOutstanding seg = 1 ∧
    segmentFullyCarved st seg = true ∧ inSegment (st.segments seg) addr = true

/-- Returning the page releases no segment that a thread is about to read a link from. -/
def CacheSys.SparesReaders (s : CacheSys) (page : ℕ) : Prop :=
  ∀ t head, s.pc t = .popRead head → ¬s.core.pool.ReleasesSegmentOf page head

/-- The step uses no stale link and releases no segment under a reader. -/
def ReadGuard (s : CacheSys) (l : CacheLabel) : Prop :=
  LinkFresh s l ∧
    match l with
    | .core (.deallocSlab _ page) => s.SparesReaders page
    | .advance t _ => ∀ page, s.pc t = .divert page → s.SparesReaders page
    | _ => True

section Pool

variable {T : Type} {st st' : PoolState} {kind : ℕ → PageKind T} {addr : ℕ}

/-- States with the same table have the same registered addresses. -/
theorem PoolState.Registered.congr (h : st.Registered addr) (hsegments : st'.segments = st.segments)
    (hcount : st'.segmentCount = st.segmentCount) : st'.Registered addr := by
  rw [PoolState.Registered, hsegments, hcount]
  exact h

/-- A release is of a segment with exactly one outstanding page. -/
theorem PoolInv.releasesSegmentOf (h : PoolInv st kind) {slab seg : ℕ} {tag : T}
    (hkind : kind slab = .out tag) (hseg : seg < st.segmentCount)
    (hmem : slab ∈ segmentPages (st.segments seg))
    (hfree : ∀ p ∈ segmentPages (st.segments seg), p ≠ slab → kind p = .dirty ∨ kind p = .clean)
    (hcursor : inSegment (st.segments seg) st.segmentCursor = false)
    (haddr : inSegment (st.segments seg) addr = true) : st.ReleasesSegmentOf slab addr := by
  refine ⟨seg, h.findSegment_eq _ rfl rfl hseg hmem,
    ?_, by simp [segmentFullyCarved, hcursor], haddr⟩
  have hflip := countP_eq_succ_of_flip (f := fun _ => false) (g := fun p => (kind p).isOut)
    (segmentPages_nodup _) hmem rfl (by simp [hkind, PageKind.isOut]) fun p hp hne => by
      rcases hfree p hp hne with hp | hp <;> simp [hp, PageKind.isOut]
  rw [h.outstanding seg hseg, hflip]
  simp

/-- Returning a page unregisters at most the segment it releases. -/
theorem PoolState.Registered.deallocSlabLocked (hreg : st.Registered addr) (h : PoolInv st kind)
    {slab : ℕ} {tag : T} (hkind : kind slab = .out tag) (hkeep : ¬st.ReleasesSegmentOf slab addr)
    {outcome : DeallocOutcome} (heq : deallocSlabLocked st slab = some (st', outcome)) :
    st'.Registered addr := by
  obtain ⟨seg, st₁, hseg, hmem, ⟨heq', -, hrem, hfree, hcursor⟩ |
    ⟨outcome', heq', -, -, htable, -⟩⟩ :=
    deallocSlabLocked_spec h hkind
  · rw [heq', Option.some.injEq, Prod.mk.injEq] at heq
    obtain ⟨rfl, -⟩ := heq
    obtain ⟨i, hi, hin⟩ := hreg
    have hne : i ≠ seg := by
      rintro rfl
      exact hkeep (h.releasesSegmentOf hkind hseg hmem hfree hcursor hin)
    obtain ⟨j, hj, hsame⟩ := hrem.kept i hi hne
    exact ⟨j, hj, hsame ▸ hin⟩
  · rw [heq', Option.some.injEq, Prod.mk.injEq] at heq
    obtain ⟨rfl, -⟩ := heq
    exact hreg.congr htable.segments htable.count

end Pool

variable {X : Type} {c c' : PoolCore} {extra : X → List ℕ} {kind : ℕ → PageKind (Tag X)}

/-- A step of the pool unregisters at most the segment that a `dealloc_slab` releases. -/
theorem CoreInv.registered_step (h : CoreInv c extra kind) {l : PoolLabel} {addr : ℕ}
    (hreg : c.pool.Registered addr)
    (hkeep : ∀ t page, l = .deallocSlab t page → ¬c.pool.ReleasesSegmentOf page addr)
    (hstep : poolStep c l = some c') : c'.pool.Registered addr := by
  have hsection := poolStep_section hstep
  generalize c'.pool = pool at hsection ⊢
  cases hsection with
  | allocSlab heq =>
    rcases allocSlabLocked_spec h.pool (.owned 0) with ⟨slab, st', heq', -, -, -, htable⟩ |
      ⟨heq', -⟩
    · rw [heq', Option.some.injEq, Prod.mk.injEq] at heq
      rw [← heq.1]
      rcases htable with htable | ⟨-, -, hsegments, hcount, -⟩
      · exact hreg.congr htable.segments htable.count
      · exact hreg.congr hsegments hcount
    · rw [heq', Option.some.injEq, Prod.mk.injEq] at heq
      rw [← heq.1]
      exact hreg
  | allocSlabSlow hcall =>
    rcases allocSlabSlowLocked_spec h.pool (h.fresh hcall) (.owned 0) with
      ⟨-, st', heq, -, htable⟩ | ⟨st', rest, heq, hsegments, hcount, -⟩
    · rw [heq]
      exact hreg.congr htable.segments htable.count
    · rw [heq]
      obtain ⟨i, hi, hin⟩ := hreg
      refine ⟨i, by change i < st'.segmentCount; omega, ?_⟩
      change inSegment (st'.segments i) addr = true
      rw [hsegments, appendSegment_segments_of_ne _ (by omega)]
      exact hin
  | deallocSlab hp heq =>
    exact hreg.deallocSlabLocked h.pool (((h.keyed (.owned _)).1 _).mp hp) (hkeep _ _ rfl) heq
  | purgeTake heq =>
    obtain ⟨st', taken, heq', -, -, -, htable⟩ := purgeTakeLocked_spec h.pool (.buffer 0)
    rw [heq', Option.some.injEq, Prod.mk.injEq] at heq
    exact hreg.congr (heq.1 ▸ htable.segments) (heq.1 ▸ htable.count)
  | purgeReturn hcall heq =>
    obtain ⟨st', heq', -, htable⟩ := purgeReturnLocked_spec h.pool _ (h.buffer hcall).1
      (h.buffer hcall).2
    rw [heq', Option.some.injEq] at heq
    exact hreg.congr (heq ▸ htable.segments) (heq ▸ htable.count)
  | count bytes => exact hreg

/-- Every thread about to read a link reads it from a registered segment. -/
def CacheSys.ReadsRegistered (s : CacheSys) : Prop :=
  ∀ t head, s.pc t = .popRead head → s.core.pool.Registered head

variable {s s' : CacheSys} {others : X → List ℕ} {kindS : ℕ → PageKind (Tag (Option X))} {t : ℕ}
  {k : CacheCall}

/-- The head of the cache lies in a registered segment. -/
theorem CacheInv.head_registered (h : CacheInv s others kindS) {head : ℕ}
    (hhead : s.slabCache = some head) :
    s.core.pool.Registered head := by
  have hchain := h.chain
  rw [hhead] at hchain
  obtain ⟨rest, hcached, -⟩ := hchain.exists_cons
  have hmem : head ∈ s.core.holder (s.places others) (.other none) := by
    simp [PoolCore.holder, CacheSys.places, hcached]
  obtain ⟨i, hi, hpage⟩ := h.core.registered hmem
  exact ⟨i, hi, ((h.core.pool.mem_segmentPages_iff hi).mp hpage).1⟩

/-- Moving a thread keeps the readers registered unless it becomes one. -/
theorem CacheSys.ReadsRegistered.goto (hreads : s.ReadsRegistered)
    (hk : ∀ head, k = .popRead head → s.core.pool.Registered head) :
    (s.goto t k).ReadsRegistered := by
  intro t' head hpc
  by_cases htt : t' = t
  · subst htt
    exact hk head (by simpa [CacheSys.goto] using hpc)
  · exact hreads t' head (by simpa [CacheSys.goto, htt] using hpc)

/-- A diverted page releases no segment under a reader. -/
theorem CacheSys.ReadsRegistered.divert (hreads : s.ReadsRegistered) (h : CacheInv s others kindS)
    {page : ℕ} {core : PoolCore} (hpc : s.pc t = .divert page) (hspares : s.SparesReaders page)
    (hstep : s.core.deallocSlab t page = some core) :
    CacheSys.ReadsRegistered (CacheSys.goto { s with core := core } t .idle) := by
  have howned : page ∈ s.core.owned t := h.inHand t page (by rw [hpc]; rfl)
  have hlabel : poolStep s.core (.deallocSlab t page) = some core := by
    simp only [poolStep, h.apart t (by simp [hpc]), howned, if_true]
    exact hstep
  have hcore : CacheSys.ReadsRegistered { s with core := core } := fun t' head hpc' => by
    refine h.core.registered_step (hreads t' head hpc') (fun t₁ page₁ heq => ?_) hlabel
    cases heq
    exact hspares t' head hpc'
  exact hcore.goto (by simp)

/-- Every guarded step keeps every reader's page registered. -/
theorem CacheSys.ReadsRegistered.step (hreads : s.ReadsRegistered) (h : CacheInv s others kindS)
    {l : CacheLabel} (hguard : ReadGuard s l) (hstep : cacheStep s l = some s') :
    s'.ReadsRegistered := by
  have hmove {t : ℕ} {k : CacheCall} (hk : ∀ head, k ≠ .popRead head) :
      (s.goto t k).ReadsRegistered :=
    hreads.goto fun head heq => absurd heq (hk head)
  have hread {t head : ℕ} (hhead : s.slabCache = some head) :
      (s.goto t (.popRead head)).ReadsRegistered := by
    refine hreads.goto fun head' hk => ?_
    cases hk
    exact h.head_registered hhead
  cases cacheStep_cases hstep with
  | core _ hcore =>
    refine fun t head hpc => h.core.registered_step (hreads t head hpc)
      (fun t₁ page heq => ?_) hcore
    subst heq
    exact hguard.2 t head hpc
  | cacheSlab => exact hmove (by simp)
  | uncacheSlab => exact hmove (by simp)
  | ownerWrite => exact hreads
  | poolWrite => exact hreads
  | full => exact hmove (by simp)
  | loadLen => exact hmove (by simp)
  | divert hpc hcore => exact hreads.divert h hpc (hguard.2 _ hpc) hcore
  | loadHead => exact hmove (by simp)
  | @writeLink t page current =>
    have hwrite : CacheSys.ReadsRegistered { s with word := Function.update s.word page current } :=
      hreads
    exact hwrite.goto (by simp)
  | @push t page =>
    have hpush : (s.push t page).ReadsRegistered := hreads
    exact hpush.goto (by simp)
  | pushRetry => exact hmove (by simp)
  | @pushCount t _ len =>
    have hlen : CacheSys.ReadsRegistered { s with slabCacheLen := len } := hreads
    exact hlen.goto (by simp)
  | popEmpty => exact hmove (by simp)
  | popLoad _ hhead => exact hread hhead
  | popRead => exact hmove (by simp)
  | @pop t head next =>
    have hpop : (s.pop t head next).ReadsRegistered := hreads
    exact hpop.goto (by simp)
  | popGone => exact hmove (by simp)
  | popRetry _ _ hhead => exact hread hhead
  | @popCount t _ len =>
    have hlen : CacheSys.ReadsRegistered { s with slabCacheLen := len } := hreads
    exact hlen.goto (by simp)

/-- In every guarded run each link read is from a page of a registered segment. -/
theorem uncache_reads_registered {labels : List CacheLabel}
    (hmeets : Transition.Meets cacheStep ReadGuard CacheSys.new labels)
    (hrun : Transition.run cacheStep CacheSys.new labels = some s) : s.ReadsRegistered := by
  have hinit : CacheSys.new.ReadsRegistered := by simp [CacheSys.ReadsRegistered, CacheSys.new]
  have hfinal : (∃ kind, CacheInv s (fun _ : Empty => []) kind) ∧ s.ReadsRegistered := by
    refine Transition.run_invariant_of_meets
      (I := fun s => (∃ kind, CacheInv s (fun _ : Empty => []) kind) ∧ s.ReadsRegistered) ?_
      ⟨⟨_, cacheInv_new⟩, hinit⟩ hmeets hrun
    intro s l s' hs hguard hstep
    obtain ⟨⟨kind, h⟩, hreads⟩ := hs
    exact ⟨h.step hguard.1 hstep, hreads.step h hguard hstep⟩
  exact hfinal.2

/-- The page a step returns to the pool. -/
def CacheSys.returnedPage (s : CacheSys) : CacheLabel → Option ℕ
  | .core (.deallocSlab _ page) => some page
  | .advance t _ =>
    match s.pc t with
    | .divert page => some page
    | _ => none
  | _ => none

/-- The page whose link a thread reads next. -/
def CacheCall.reading : CacheCall → Option ℕ
  | .popRead head => some head
  | _ => none

/-- Whether `dealloc_slab` of the page would release the segment that contains the address. -/
def PoolState.releasesSegmentOf (st : PoolState) (page addr : ℕ) : Bool :=
  match findSegment st page with
  | some seg =>
    decide (st.segOutstanding seg = 1) && segmentFullyCarved st seg &&
    inSegment (st.segments seg) addr
  | none => false

/-- The test is true of the segments that would be released. -/
theorem PoolState.ReleasesSegmentOf.test {st : PoolState} {page addr : ℕ}
    (h : st.ReleasesSegmentOf page addr) :
    st.releasesSegmentOf page addr = true := by
  obtain ⟨seg, hfind, hone, hcarved, hin⟩ := h
  simp [PoolState.releasesSegmentOf, hfind, hone, hcarved, hin]

/-- A thread beneath the bound takes the step and releases no segment under a reader beneath the
bound. -/
def ReadGuardBelow (bound : ℕ) (s : CacheSys) (l : CacheLabel) : Prop :=
  LinkFresh s l ∧ l.thread < bound ∧ ∀ page ∈ s.returnedPage l,
    ∀ t < bound, ∀ head ∈ (s.pc t).reading, s.core.pool.releasesSegmentOf page head = false

/-- Whether the readers beneath the bound are spared can be computed. -/
instance decidableReadGuardBelow (bound : ℕ) (s : CacheSys) (l : CacheLabel) :
    Decidable (ReadGuardBelow bound s l) :=
  inferInstanceAs (Decidable (LinkFresh s l ∧ l.thread < bound ∧
    ∀ page ∈ s.returnedPage l,
    ∀ t < bound, ∀ head ∈ (s.pc t).reading, s.core.pool.releasesSegmentOf page head = false))

/-- Where all other threads are idle, sparing the readers beneath the bound spares all. -/
theorem ReadGuardBelow.readGuard {bound : ℕ} {l : CacheLabel}
    (hidle : ∀ t, bound ≤ t → s.pc t = .idle) (h : ReadGuardBelow bound s l) : ReadGuard s l := by
  obtain ⟨hlink, -, hspares⟩ := h
  have hspared {page : ℕ} (hpage : s.returnedPage l = some page) : s.SparesReaders page := by
    intro t head hpc hreleases
    have hbound : t < bound := by
      by_contra hge
      rw [hidle t (Nat.le_of_not_lt hge)] at hpc
      cases hpc
    have hfalse := hspares page hpage t hbound head (by rw [hpc]; rfl)
    rw [hreleases.test] at hfalse
    cases hfalse
  refine ⟨hlink, ?_⟩
  split
  · exact hspared rfl
  · intro page hpc
    exact hspared (by simp [CacheSys.returnedPage, hpc])
  · trivial

/-- Thread 2 caches two pages and thread 3 loads the upper one as the head; thread 4 pops it. Then a
purge runs, and two segments are released. -/
def readerRun : List CacheLabel :=
  handOutRun.map .core ++ pushRun 2 0x3050000 ++ pushRun 2 0x3060000 ++ [.uncacheSlab 3,
    .advance 3 false] ++ popRun 4 ++ (startPurgeRun ++ endPurgeRun).map .core

/-- Thread 3 is about to read the link of a page that thread 4 has, and whose segment is still
registered. -/
theorem uncache_reads_registered_readerRun :
    ∃ s, Transition.run cacheStep CacheSys.new readerRun = some s ∧
    s.pc 3 = .popRead 0x3060000 ∧ s.core.owned 4 = [0x3060000] ∧ s.cached = [0x3050000] ∧
      s.core.pool.metrics.segmentMunmapCount = 2 ∧ s.core.pool.Registered 0x3060000 := by
  have hbelow : Transition.Meets cacheStep (ReadGuardBelow 5) CacheSys.new readerRun := by
    decide +kernel
  have heval : (Transition.run cacheStep CacheSys.new readerRun).map
      (fun s => decide (s.pc 3 = .popRead 0x3060000 ∧
      s.core.owned 4 = [0x3060000] ∧ s.cached = [0x3050000] ∧
        s.core.pool.metrics.segmentMunmapCount = 2)) =
      some true := by decide +kernel
  have hmeets : Transition.Meets cacheStep (fun s l => ReadGuard s l ∧
      l.thread < 5) CacheSys.new readerRun := by
    refine hbelow.mono_of_invariant (I := fun s => ∀ t, 5 ≤ t → s.pc t = .idle)
      (fun s l hidle h => ⟨h.readGuard hidle, h.2.1⟩) ?_ fun _ _ => rfl
    rintro s l s' hidle ⟨-, hthread⟩ hstep t ht
    rw [(cacheStep_frame (by omega) hstep).1]
    exact hidle t ht
  obtain ⟨s, hrun, hs⟩ := Option.map_eq_some_iff.mp heval
  obtain ⟨hpc, howned, hcached, hmunmap⟩ := of_decide_eq_true hs
  exact ⟨s, hrun, hpc, howned, hcached, hmunmap,
    uncache_reads_registered (hmeets.mono fun _ _ h => h.1) hrun 3 0x3060000 hpc⟩

/-- Threads 1 and 2 both map a segment, so the second one is not being carved. Thread 2 caches the
page it got; thread 3 loads it as the head; thread 2 takes the page back and returns it, which
releases the segment. -/
def releasedHeadRun : List CacheLabel :=
  [.core (.allocSlab 1), .core (.allocSlab 2), .core (.osAlloc 1 (some 0x1000000)),
    .core (.osAlloc 2 (some 0x2000000)), .core (.allocSlabSlow 1), .core (.allocSlabSlow 2)] ++
    pushRun 2 0x2000000 ++ [.uncacheSlab 3,
      .advance 3 false] ++ popRun 2 ++ [.core (.deallocSlab 2 0x2000000)]

/-- A thread can read the link of a page whose segment has been released. -/
theorem uncache_reads_released :
    ∃ s s', Transition.run cacheStep CacheSys.new releasedHeadRun = some s ∧
    s.pc 3 = .popRead 0x2000000 ∧ ¬s.core.pool.Registered 0x2000000 ∧
    cacheStep s (.advance 3 false) = some s' ∧ s'.pc 3 = .popCas 0x2000000 (s.word 0x2000000) := by
  have heval : (Transition.run cacheStep CacheSys.new releasedHeadRun).map (fun s => decide
      (s.pc 3 = .popRead 0x2000000 ∧
        ∀ i < s.core.pool.segmentCount,
          inSegment (s.core.pool.segments i) 0x2000000 = false)) = some true := by
    decide +kernel
  obtain ⟨s, hrun, hs⟩ := Option.map_eq_some_iff.mp heval
  obtain ⟨hpc, hgone⟩ := of_decide_eq_true hs
  refine ⟨s, s.goto 3 (.popCas 0x2000000 (s.word 0x2000000)), hrun, hpc, ?_, ?_, ?_⟩
  · rintro ⟨i, hi, hin⟩
    rw [hgone i hi] at hin
    contradiction
  · simp [cacheStep, CacheSys.advance, hpc]
  · simp [CacheSys.goto]

end ClMalloc
