import ClMalloc.PoolInvariant

/-!
# What each critical section of the pool does to the page map

Every section is total on a state that satisfies the accounting invariant: the segment
search never fails. A page handed out takes the tag of its new holder, a returned page
becomes dirty, a purged page clean, and releasing a segment sends all its pages outside.
-/

namespace ClMalloc

open Intrusive

variable {T : Type} {st : PoolState} {kind : ℕ → PageKind T}

/-- Counters that only report do not take part in the accounting. -/
theorem PoolInv.withCounters (h : PoolInv st kind) (slabs large : ℕ) (m : PoolMetrics) :
    PoolInv { st with outstandingSlabs := slabs, largeMappedBytes := large, metrics := m } kind :=
  { h with }

/-- Changing only the tags of pages that are out keeps the accounting. -/
theorem PoolInv.retag (h : PoolInv st kind) {T' : Type} {kind' : ℕ → PageKind T'}
    (hkind : ∀ p, (kind' p = .outside ↔ kind p = .outside) ∧ (kind' p = .dirty ↔ kind p = .dirty) ∧
      (kind' p = .clean ↔ kind p = .clean) ∧ (kind' p = .uncarved ↔ kind p = .uncarved) ∧
      (kind' p).isOut = (kind p).isOut) : PoolInv st kind' :=
  { h with
    registered := fun p => by rw [← h.registered p, ne_eq, (hkind p).1]
    dirty := fun p => by rw [h.dirty p, (hkind p).2.1]
    clean := fun p => by rw [h.clean p, (hkind p).2.2.1]
    uncarved := fun p => by rw [h.uncarved p, (hkind p).2.2.2.1]
    outstanding := fun i hi => by
      rw [h.outstanding i hi]
      exact countP_eq_of_agree fun p _ => ((hkind p).2.2.2.2).symm }

/-- Counting a page of a registered segment leaves the unused table entries null. -/
theorem PoolInv.unused_update (h : PoolInv st kind) {seg : ℕ} (hseg : seg < st.segmentCount)
    (n i : ℕ) (hi : st.segmentCount ≤ i) :
    st.segments i = 0 ∧ Function.update st.segOutstanding seg n i = 0 := by
  rw [Function.update_of_ne (by omega)]
  exact h.unused i hi

/-- Unlinking the head of the dirty list and counting it hands that page out. -/
theorem PoolInv.takeDirty (h : PoolInv st kind) {slab seg : ℕ} {rest : List ℕ} (tag : T)
    (hpages : st.dirtyList.pages = slab :: rest) (hseg : seg < st.segmentCount)
    (hslab : slab ∈ segmentPages (st.segments seg)) :
    PoolInv (({ st with dirtyList := ⟨rest, st.dirtyList.len - 1⟩ } : PoolState).incOutstanding seg)
      (Function.update kind slab (.out tag)) := by
  have hkind : kind slab = .dirty := (h.dirty slab).mp (by simp [hpages])
  have hnodup := h.dirty_nodup
  have hmem := h.dirty
  rw [hpages] at hnodup hmem
  exact { h with
    unused := h.unused_update hseg _
    registered := h.registered_update (by simp [hkind]) (by simp)
    dirty := mem_tail_iff_update hmem hnodup (by simp)
    dirty_nodup := (List.nodup_cons.mp hnodup).2
    dirty_len := by
      change st.dirtyList.len - 1 = rest.length
      rw [h.dirty_len, hpages]
      rfl
    clean := mem_iff_update h.clean hkind (by simp) (by simp)
    uncarved := h.uncarved_update (by simp [hkind]) (by simp)
    outstanding := h.outstanding_inc hseg hslab (by simp [hkind, PageKind.isOut]) rfl }

/-- Unlinking the head of the clean list and counting it hands that page out. -/
theorem PoolInv.takeClean (h : PoolInv st kind) {slab seg : ℕ} {rest : List ℕ} (tag : T)
    (hpages : st.cleanList.pages = slab :: rest) (hseg : seg < st.segmentCount)
    (hslab : slab ∈ segmentPages (st.segments seg)) :
    PoolInv (({ st with cleanList := ⟨rest, st.cleanList.len - 1⟩ } : PoolState).incOutstanding seg)
      (Function.update kind slab (.out tag)) := by
  have hkind : kind slab = .clean := (h.clean slab).mp (by simp [hpages])
  have hnodup := h.clean_nodup
  have hmem := h.clean
  rw [hpages] at hnodup hmem
  exact { h with
    unused := h.unused_update hseg _
    registered := h.registered_update (by simp [hkind]) (by simp)
    dirty := mem_iff_update h.dirty hkind (by simp) (by simp)
    clean := mem_tail_iff_update hmem hnodup (by simp)
    clean_nodup := (List.nodup_cons.mp hnodup).2
    clean_len := by
      change st.cleanList.len - 1 = rest.length
      rw [h.clean_len, hpages]
      rfl
    uncarved := h.uncarved_update (by simp [hkind]) (by simp)
    outstanding := h.outstanding_inc hseg hslab (by simp [hkind, PageKind.isOut]) rfl }

/-- The page under an unexhausted cursor belongs to the segment being carved. -/
theorem PoolInv.cursor_mem (h : PoolInv st kind) (hcur : st.segmentCursor < st.segmentEnd) :
    st.segmentCursor ∈ segmentPages (st.segments st.carvingIdx) := by
  obtain ⟨hidx, hlo, hend, hdvd⟩ := h.carving hcur
  exact (mem_segmentPages (h.base_aligned _ hidx)).mpr ⟨hlo, hend ▸ hcur, hdvd⟩

/-- Advancing the cursor and counting the page hands the carved page out. -/
theorem PoolInv.carve (h : PoolInv st kind) (tag : T) (hcur : st.segmentCursor < st.segmentEnd) :
    PoolInv { st.incOutstanding st.carvingIdx with segmentCursor := st.segmentCursor + slabSize }
      (Function.update kind st.segmentCursor (.out tag)) := by
  obtain ⟨hidx, hlo, hend, hdvd⟩ := h.carving hcur
  have hkind : kind st.segmentCursor = .uncarved := (h.uncarved _).mp ⟨le_rfl, hcur, hdvd⟩
  exact { h with
    unused := h.unused_update hidx _
    registered := h.registered_update (by simp [hkind]) (by simp)
    dirty := mem_iff_update h.dirty hkind (by simp) (by simp)
    clean := mem_iff_update h.clean hkind (by simp) (by simp)
    uncarved := fun q => by
      change (st.segmentCursor + slabSize ≤ q ∧ q < st.segmentEnd ∧ slabSize ∣ q) ↔ _
      by_cases hq : q = st.segmentCursor
      · subst hq
        simp [slabSize]
      · rw [Function.update_of_ne hq, ← h.uncarved q]
        simp only [slabSize] at hdvd ⊢
        omega
    carving := fun hlt => by
      change st.segmentCursor + slabSize < st.segmentEnd at hlt
      exact ⟨hidx, hlo.trans (Nat.le_add_right _ _), hend, (Nat.dvd_add_right hdvd).mpr dvd_rfl⟩
    outstanding := h.outstanding_inc hidx (h.cursor_mem hcur)
      (by simp [hkind, PageKind.isOut]) rfl }

/-- Linking an outstanding page into the dirty list and uncounting it returns the page. -/
theorem PoolInv.putDirty (h : PoolInv st kind) {slab seg : ℕ} {tag : T}
    (hkind : kind slab = .out tag) (hseg : seg < st.segmentCount)
    (hslab : slab ∈ segmentPages (st.segments seg)) :
    PoolInv (({ st with dirtyList := st.dirtyList.push slab } : PoolState).decOutstanding seg)
      (Function.update kind slab .dirty) := by
  have hnew : slab ∉ st.dirtyList.pages := by simp [h.dirty, hkind]
  exact { h with
    unused := h.unused_update hseg _
    registered := h.registered_update (by simp [hkind]) (by simp)
    dirty := mem_cons_iff_update h.dirty
    dirty_nodup := List.nodup_cons.mpr ⟨hnew, h.dirty_nodup⟩
    dirty_len := congrArg (· + 1) h.dirty_len
    clean := mem_iff_update h.clean hkind (by simp) (by simp)
    uncarved := h.uncarved_update (by simp [hkind]) (by simp)
    outstanding := h.outstanding_dec hseg hslab (by simp [hkind, PageKind.isOut]) rfl }

/-- Linking an outstanding page into the clean list and uncounting it returns the page. -/
theorem PoolInv.putClean (h : PoolInv st kind) {slab seg : ℕ} {tag : T}
    (hkind : kind slab = .out tag) (hseg : seg < st.segmentCount)
    (hslab : slab ∈ segmentPages (st.segments seg)) :
    PoolInv ({ st.decOutstanding seg with cleanList := st.cleanList.push slab })
      (Function.update kind slab .clean) := by
  have hnew : slab ∉ st.cleanList.pages := by simp [h.clean, hkind]
  exact { h with
    unused := h.unused_update hseg _
    registered := h.registered_update (by simp [hkind]) (by simp)
    dirty := mem_iff_update h.dirty hkind (by simp) (by simp)
    clean := mem_cons_iff_update h.clean
    clean_nodup := List.nodup_cons.mpr ⟨hnew, h.clean_nodup⟩
    clean_len := congrArg (· + 1) h.clean_len
    uncarved := h.uncarved_update (by simp [hkind]) (by simp)
    outstanding := h.outstanding_dec hseg hslab (by simp [hkind, PageKind.isOut]) rfl }

/-- The segment table and the carving range are the same in both states. -/
structure SameTable (st st' : PoolState) : Prop where
  segments : st'.segments = st.segments
  count : st'.segmentCount = st.segmentCount
  cursor : st'.segmentCursor = st.segmentCursor
  rangeEnd : st'.segmentEnd = st.segmentEnd

/-- A state has its own table. -/
theorem SameTable.refl (st : PoolState) : SameTable st st := ⟨rfl, rfl, rfl, rfl⟩

/-- A popped page whose segment is found is handed out. -/
theorem allocSlabLocked_of_popFree {popped : PoolState} {slab seg : ℕ}
    (hpop : popFree st.countLock = some (slab, popped))
    (hfind : findSegment popped slab = some seg) :
    allocSlabLocked st =
      some ({ popped.incOutstanding seg with
        outstandingSlabs := popped.outstandingSlabs + 1 }, some slab) := by
  rw [allocSlabLocked, hpop]
  simp only [hfind]

/-- `alloc_slab` pops a dirty page, else a clean page, else carves one, else reports that nothing is
free. -/
theorem allocSlabLocked_spec (h : PoolInv st kind) (tag : T) :
    (∃ slab st', allocSlabLocked st = some (st', some slab) ∧ (kind slab).isOut = false ∧
      PoolInv st' (Function.update kind slab (.out tag)) ∧ kind slab ≠ .outside ∧
      (SameTable st st' ∨ (slab = st.segmentCursor ∧ st.segmentCursor < st.segmentEnd ∧
        st'.segments = st.segments ∧ st'.segmentCount = st.segmentCount ∧
        st'.segmentEnd = st.segmentEnd ∧ st'.segmentCursor = st.segmentCursor + slabSize))) ∨
    (allocSlabLocked st = some (st.countLock, none) ∧ st.dirtyList.pages = [] ∧
      st.cleanList.pages = [] ∧ st.segmentEnd ≤ st.segmentCursor) := by
  cases hd : st.dirtyList.pages with
  | cons slab rest =>
    have hkind : kind slab = .dirty := (h.dirty slab).mp (by simp [hd])
    obtain ⟨i, hi, hmem⟩ := h.exists_segment (p := slab) (by simp [hkind])
    have hfind := h.findSegment_eq ({ st.countLock with dirtyList := ⟨rest, st.dirtyList.len - 1⟩ })
      rfl rfl hi hmem
    have hpop : popFree st.countLock =
        some (slab, { st.countLock with dirtyList := ⟨rest, st.dirtyList.len - 1⟩ }) := by
      simp [popFree, PageFreeList.pop, PoolState.countLock, hd]
    exact .inl ⟨slab, _, allocSlabLocked_of_popFree hpop hfind, by simp [hkind, PageKind.isOut],
      (h.takeDirty tag hd hi hmem).withCounters _ _ _, by simp [hkind], .inl ⟨rfl, rfl, rfl, rfl⟩⟩
  | nil =>
    cases hc : st.cleanList.pages with
    | cons slab rest =>
      have hkind : kind slab = .clean := (h.clean slab).mp (by simp [hc])
      obtain ⟨i, hi, hmem⟩ := h.exists_segment (p := slab) (by simp [hkind])
      have hfind := h.findSegment_eq ({ st.countLock with
        cleanList := ⟨rest, st.cleanList.len - 1⟩ })
        rfl rfl hi hmem
      have hpop : popFree st.countLock =
          some (slab, { st.countLock with cleanList := ⟨rest, st.cleanList.len - 1⟩ }) := by
        simp [popFree, PageFreeList.pop, PoolState.countLock, hd, hc]
      exact .inl ⟨slab, _, allocSlabLocked_of_popFree hpop hfind, by simp [hkind, PageKind.isOut],
        (h.takeClean tag hc hi hmem).withCounters _ _ _, by simp [hkind], .inl ⟨rfl, rfl, rfl, rfl⟩⟩
    | nil =>
      have hpop : popFree st.countLock = none := by
        simp [popFree, PageFreeList.pop, PoolState.countLock, hd, hc]
      by_cases hcur : st.segmentCursor < st.segmentEnd
      · have hkind : kind st.segmentCursor = .uncarved :=
          (h.uncarved _).mp ⟨le_rfl, hcur, (h.carving hcur).2.2.2⟩
        refine .inl ⟨st.segmentCursor, _, ?_, by simp [hkind, PageKind.isOut],
          (h.carve tag hcur).withCounters
            (st.outstandingSlabs + 1) st.largeMappedBytes st.countLock.metrics,
          by simp [hkind], .inr ⟨rfl, hcur, rfl, rfl, rfl, rfl⟩⟩
        rw [allocSlabLocked, hpop]
        exact if_pos hcur
      · refine .inr ⟨?_, rfl, rfl, not_lt.mp hcur⟩
        rw [allocSlabLocked, hpop]
        exact if_neg hcur

/-- The map after giving every listed page one kind. -/
def setKind (kind : ℕ → PageKind T) (pages : List ℕ) (k : PageKind T) (p : ℕ) : PageKind T :=
  if p ∈ pages then k else kind p

/-- Setting no page changes nothing. -/
@[simp] theorem setKind_nil (k : PageKind T) : setKind kind [] k = kind := by
  funext p
  simp [setKind]

/-- Setting a list is setting its head and then the rest. -/
theorem setKind_cons (kind : ℕ → PageKind T) (slab : ℕ) (rest : List ℕ) (k : PageKind T) :
    setKind kind (slab :: rest) k = setKind (Function.update kind slab k) rest k := by
  funext p
  by_cases hr : p ∈ rest
  · simp [setKind, hr]
  · by_cases hp : p = slab
    · subst hp
      simp [setKind, hr]
    · simp [setKind, hr, hp]

/-- Moving outstanding pages to another tag keeps the accounting. -/
theorem PoolInv.retagPages (h : PoolInv st kind) {pages : List ℕ} (tag : T)
    (hout : ∀ p ∈ pages, (kind p).isOut = true) : PoolInv st (setKind kind pages (.out tag)) := by
  refine h.retag fun q => ?_
  by_cases hq : q ∈ pages
  · have hk := hout q hq
    cases hkind : kind q <;> simp_all [setKind, PageKind.isOut]
  · simp [setKind, hq]

/-- The first purge section moves some dirty pages into the buffer, counting each as outstanding. -/
theorem purgeTakeLoop_spec (h : PoolInv st kind) (tag : T) (room : ℕ) (buf : List ℕ) :
    ∃ st' taken, purgeTakeLoop room st buf = some (st', buf ++ taken) ∧ taken.Nodup ∧
      (∀ p ∈ taken, kind p = .dirty) ∧ PoolInv st' (setKind kind taken (.out tag)) ∧
        SameTable st st' := by
  induction room generalizing st kind buf with
  | zero =>
    exact ⟨st, [], by simp [purgeTakeLoop], List.nodup_nil, by simp, by simpa using h, .refl st⟩
  | succ room ih =>
    have hstop : ∃ st' taken, some (st, buf) = some (st', buf ++ taken) ∧ taken.Nodup ∧
        (∀ p ∈ taken, kind p = .dirty) ∧ PoolInv st' (setKind kind taken (.out tag)) ∧
          SameTable st st' :=
      ⟨st, [], by simp, List.nodup_nil, by simp, by simpa using h, .refl st⟩
    rw [purgeTakeLoop]
    split
    · cases hd : st.dirtyList.pages with
      | nil => simpa [PageFreeList.pop, hd] using hstop
      | cons slab rest =>
        have hkind : kind slab = .dirty := (h.dirty slab).mp (by simp [hd])
        obtain ⟨i, hi, hmem⟩ := h.exists_segment (p := slab) (by simp [hkind])
        have hfind := h.findSegment_eq ({ st with dirtyList := ⟨rest, st.dirtyList.len - 1⟩ })
          rfl rfl hi hmem
        obtain ⟨st', taken, hloop, hnodup, hdirty, hinv, htable⟩ :=
          ih (h.takeDirty tag hd hi hmem) (buf ++ [slab])
        have hnew : slab ∉ taken := fun hin => by simpa using hdirty slab hin
        refine ⟨st', slab :: taken, ?_, List.nodup_cons.mpr ⟨hnew, hnodup⟩, ?_, ?_, ?_⟩
        · simp only [PageFreeList.pop, hd, hfind]
          rw [hloop, List.append_assoc]
          rfl
        · intro p hp
          rcases List.mem_cons.mp hp with rfl | hin
          · exact hkind
          · have := hdirty p hin
            rwa [Function.update_of_ne (ne_of_mem_of_not_mem hin hnew)] at this
        · rw [setKind_cons]
          exact hinv
        · exact ⟨htable.segments, htable.count, htable.cursor, htable.rangeEnd⟩
    · exact hstop

/-- The second purge section hands every buffered page to the clean list. -/
theorem purgeReturnLoop_spec (h : PoolInv st kind) (buf : List ℕ) (hnodup : buf.Nodup)
    (hout : ∀ p ∈ buf, ∃ tag, kind p = .out tag) :
    ∃ st', purgeReturnLoop buf st = some st' ∧ PoolInv st' (setKind kind buf .clean) ∧
      SameTable st st' := by
  induction buf generalizing st kind with
  | nil => exact ⟨st, rfl, by simpa using h, .refl st⟩
  | cons slab rest ih =>
    obtain ⟨hnew, hrest⟩ := List.nodup_cons.mp hnodup
    obtain ⟨tag, hkind⟩ := hout slab List.mem_cons_self
    obtain ⟨i, hi, hmem⟩ := h.exists_segment (p := slab) (by simp [hkind])
    obtain ⟨st', hloop, hinv, htable⟩ := ih (h.putClean hkind hi hmem) hrest fun p hp => by
      rw [Function.update_of_ne (ne_of_mem_of_not_mem hp hnew)]
      exact hout p (List.mem_cons_of_mem _ hp)
    refine ⟨st', ?_, ?_, ⟨htable.segments, htable.count, htable.cursor, htable.rangeEnd⟩⟩
    · simp only [purgeReturnLoop, h.findSegment_eq _ rfl rfl hi hmem]
      exact hloop
    · rw [setKind_cons]
      exact hinv

/-- The first critical section of `purge_excess` moves some dirty pages into the caller's buffer. -/
theorem purgeTakeLocked_spec (h : PoolInv st kind) (tag : T) :
    ∃ st' taken, purgeTakeLocked st = some (st', taken) ∧ taken.Nodup ∧
      (∀ p ∈ taken, kind p = .dirty) ∧
      PoolInv st' (setKind kind taken (.out tag)) ∧ SameTable st st' := by
  have hlock : PoolInv st.countLock kind := h.withCounters _ _ _
  obtain ⟨st', taken, heq, hnodup, hdirty, hinv, htable⟩ :=
    purgeTakeLoop_spec hlock tag purgeBatch []
  exact ⟨st', taken, heq, hnodup, hdirty, hinv, htable.segments, htable.count,
    htable.cursor, htable.rangeEnd⟩

/-- The second critical section of `purge_excess` moves the caller's buffer to the clean list. -/
theorem purgeReturnLocked_spec (h : PoolInv st kind) (buf : List ℕ) (hnodup : buf.Nodup)
    (hout : ∀ p ∈ buf, ∃ tag, kind p = .out tag) :
    ∃ st', purgeReturnLocked st buf = some st' ∧ PoolInv st' (setKind kind buf .clean) ∧
      SameTable st st' := by
  obtain ⟨st', heq, hinv, htable⟩ := purgeReturnLoop_spec (h.withCounters st.outstandingSlabs
    st.largeMappedBytes { st.countLock.metrics with
      slabPurgeCount := st.metrics.slabPurgeCount + buf.length }) buf hnodup hout
  exact ⟨st', heq, hinv, htable.segments, htable.count, htable.cursor, htable.rangeEnd⟩

end ClMalloc
